import LionOS.Boot.Walkers

/-! Which ranges of memory the enumeration of the processors checks, and what it reads of the
tables. -/
namespace LionOS.Boot
open LionOS.Library
open LionOS.Physical (Byte)
open LionOS.Frames (read32 read64 tagEnd)

/-- `identity_range_ok` has accepted a range, or a field is read. -/
inductive TableEvent
  | validated (table length : Nat)
  | reads (address count : Nat)

/-- A range that is accepted is mapped, and a field lies in a range that was accepted before. -/
def Proper (before : List TableEvent) : TableEvent → Prop
  | .validated table length => identityRangeOk table length
  | .reads address count => ∃ table length, .validated table length ∈ before ∧ table ≤ address ∧ address + count ≤ table + length

def Guarded (before : List TableEvent) : List TableEvent → Prop
  | [] => True
  | event::rest => Proper before event ∧ Guarded (event::before) rest

def field (table skip count : Nat) : TableEvent := .reads (pointer (table + skip)) count

section Events
variable (bytes : Nat → Byte)

/-- The letters up to the first that differs. -/
def sigEvents (table : Nat) (sig : List Char) : List TableEvent :=
  ((List.range 4).filter fun i =>
    (List.range i).all fun j => (sig[j]?).map Char.toNat == some (bytes (pointer (table + j))).toNat).map fun i => field table i 1

def sumEvents (table n : Nat) : List TableEvent := (List.range n).map fun i => field table i 1

/-- The length of a table is read and checked. -/
def measured (table : Nat) (later : List TableEvent) : List TableEvent :=
  field table 4 4::
    if 36 ≤ sdtLength bytes table ∧ identityRangeOk table (sdtLength bytes table) then
      .validated table (sdtLength bytes table)::later
    else []

/-- The checks of a table that an XSDT or an RSDT names. -/
def entryEvents (table : Nat) : List TableEvent :=
  measured bytes table (sigEvents bytes table ['A','P','I','C'] ++
    if sig4 bytes table ['A','P','I','C'] then sumEvents table (sdtLength bytes table) else [])

def entryAt (width place : Nat) : Nat := if width = 8 then read64 bytes (pointer place) else read32 bytes (pointer place)

/-- The loop over the entries of an XSDT or an RSDT. -/
def scanEvents (width : Nat) : List Nat → List TableEvent
  | [] => []
  | place::rest =>
    let table := entryAt bytes width place
    .reads (pointer place) width::
      if table < 2^32 ∧ identityRangeOk table 36 then
        .validated table 36::(entryEvents bytes table ++ if isMadt bytes table then [] else scanEvents width rest)
      else scanEvents width rest

/-- The branch for an XSDT, with entries of 8 bytes, or for an RSDT, with entries of 4. -/
def rootEvents (width root : Nat) (sig : List Char) : List TableEvent :=
  if identityRangeOk root 36 then
    .validated root 36::(sigEvents bytes root sig ++
      if sig4 bytes root sig then
        measured bytes root (sumEvents root (sdtLength bytes root) ++
          if checksum8 bytes root (sdtLength bytes root) = 0 then
            scanEvents bytes width
              ((List.range ((sdtLength bytes root - 36) / width)).map fun i => root + 36 + i * width)
          else [])
      else [])
  else []

def findEvents (rsdt xsdt revision : Nat) : List TableEvent :=
  let extended := revision ≥ 2 ∧ xsdt < 2^32 ∧ xsdt ≠ 0
  (if extended then rootEvents bytes 8 xsdt ['X','S','D','T'] else []) ++
    if extended ∧ (¬identityRangeOk xsdt 36 ∨
        sdtValid bytes xsdt ['X','S','D','T'] ∧ ((xsdtTables bytes xsdt).find? (isMadt bytes)).isSome) then []
    else rootEvents bytes 4 rsdt ['R','S','D','T']

/-- What a turn of the loop over the tags does with the tables. -/
def tagEvents (finish tag : Nat) : List TableEvent :=
  if pointer (tag + 8) ≤ finish ∧ read32 bytes tag ≠ tagEnd ∧ rootTag bytes tag then
    let rsdt := read32 bytes (pointer (tag + 24))
    if summedRsdp bytes tag then findEvents bytes rsdt (read64 bytes (pointer (tag + 32))) (revisionAt bytes tag)
    else if sizeAt bytes tag ≥ 28 ∧ checksum8 bytes (pointer (tag + 8)) 20 = 0 then findEvents bytes rsdt 0 1
    else []
  else []

/-- What a turn of the loop over the MADT reads. -/
def madtEvents (endm p : Nat) : List TableEvent :=
  if pointer (p + 2) ≤ endm then
    let type := (bytes (pointer p)).toNat
    let len := (bytes (pointer (p + 1))).toNat
    field p 0 1::field p 1 1::
      if len < 2 ∨ pointer (p + len) > endm then []
      else if type = 0 ∧ len ≥ 8 then [field p 3 1,field p 4 4]
      else if type = 9 ∧ len ≥ 16 then [field p 4 4,field p 8 4]
      else []
  else []

def madtTraced (madt bspApic fuel : Nat) (cpus : Nat → CpuInfo) : Option (List TableEvent × Nat × (Nat → CpuInfo)) :=
  if madt = 0 then some ([],0,cpus)
  else
    let length := sdtLength bytes madt
    if ¬identityRangeOk madt length then some ([field madt 4 4],0,cpus)
    else if length < 44 then some ([field madt 4 4,.validated madt length],0,cpus)
    else
      let endm := pointer (madt + length)
      (loop (fun e => (madtTurn bytes endm bspApic e).relog (madtEvents bytes endm e.p)) fuel
        ⟨pointer (madt + 44),0,0xFFFFFFFF,cpus⟩).map
          fun result => (field madt 4 4::.validated madt length::result.1,result.2.settle)

/-- `acpi_enumerate` with what it does with the tables. -/
def acpiTraced (mb2 bspApic fuel : Nat) (cpus : Nat → CpuInfo) : Option (List TableEvent × Nat × (Nat → CpuInfo)) :=
  if mb2 = 0 then some ([],0,cpus)
  else
    let finish := pointer (mb2 + read32 bytes mb2)
    match loop (fun tag => (acpiTurn bytes finish tag).relog (tagEvents bytes finish tag)) fuel (pointer (mb2 + 8)) with
    | none => none
    | some tags => (madtTraced bytes tags.2 bspApic fuel cpus).map fun result => (tags.1 ++ result.1,result.2)

end Events

theorem identityRangeOk_iff {address length : Nat} :
    identityRangeOk address length ↔ address ≠ 0 ∧ address < 2^28 ∧ address + length ≤ 2^28 := by
  unfold identityRangeOk kernelIdentityLimit
  simp only [Bool.and_eq_true,bne_iff_ne,decide_eq_true_eq]
  omega

section Guards
variable {before : List TableEvent}

theorem guarded_append {first second : List TableEvent} :
    Guarded before (first ++ second) ↔ Guarded before first ∧ Guarded (first.reverse ++ before) second := by
  induction first generalizing before with
  | nil => exact (and_iff_right trivial).symm
  | cons event rest ih =>
    rw [List.cons_append,Guarded,Guarded,ih,List.reverse_cons,List.append_assoc,and_assoc]
    rfl

theorem guarded_wider {before' log : List TableEvent} (wider : before ⊆ before') (guarded : Guarded before log) :
    Guarded before' log := by
  induction log generalizing before before' with
  | nil => trivial
  | cons event rest ih =>
    obtain ⟨proper,later⟩ := guarded
    refine ⟨?_,ih (List.cons_subset_cons event wider) later⟩
    cases event with
    | validated table length => exact proper
    | reads address count =>
      obtain ⟨table,length,member,inside⟩ := proper
      exact ⟨table,length,wider member,inside⟩

theorem guarded_joins {first second : List TableEvent} (left : Guarded before first) (right : Guarded before second) :
    Guarded before (first ++ second) :=
  guarded_append.mpr ⟨left,guarded_wider (List.subset_append_right _ _) right⟩

theorem guarded_each {log : List TableEvent} (each : ∀ event ∈ log, Proper before event) : Guarded before log := by
  induction log with
  | nil => trivial
  | cons event rest ih =>
    refine ⟨each event (List.mem_cons_self ..),?_⟩
    exact guarded_wider (List.subset_cons_self _ _) (ih fun event member => each event (List.mem_cons_of_mem _ member))

variable {table length : Nat} (mapped : identityRangeOk table length) (member : .validated table length ∈ before)
include mapped member

theorem field_proper {skip count : Nat} (inside : skip + count ≤ length) : Proper before (field table skip count) := by
  have low := identityRangeOk_iff.mp mapped
  refine ⟨table,length,member,?_⟩
  unfold pointer
  omega

theorem sigEvents_guarded (bytes : Nat → Byte) (sig : List Char) (header : 4 ≤ length) :
    Guarded before (sigEvents bytes table sig) := by
  apply guarded_each
  intro event found
  obtain ⟨i,there,rfl⟩ := List.mem_map.mp found
  have below := List.mem_range.mp (List.mem_filter.mp there).1
  exact field_proper mapped member (by omega)

theorem sumEvents_guarded : Guarded before (sumEvents table length) := by
  apply guarded_each
  intro event found
  obtain ⟨i,below,rfl⟩ := List.mem_map.mp found
  exact field_proper mapped member (List.mem_range.mp below)

theorem measured_guarded {bytes : Nat → Byte} {later : List TableEvent} (header : 8 ≤ length)
    (rest : identityRangeOk table (sdtLength bytes table) →
      Guarded (.validated table (sdtLength bytes table)::field table 4 4::before) later) :
    Guarded before (measured bytes table later) := by
  refine ⟨field_proper mapped member header,?_⟩
  split
  next checked => exact ⟨checked.2,rest checked.2⟩
  next => trivial

end Guards

section Finding
variable {bytes : Nat → Byte} {before : List TableEvent}

theorem entryEvents_guarded {table : Nat} (mapped : identityRangeOk table 36) (member : .validated table 36 ∈ before) :
    Guarded before (entryEvents bytes table) := by
  refine measured_guarded mapped member (by decide) fun whole => guarded_joins ?_ ?_
  · have header := List.mem_cons_of_mem (.validated table (sdtLength bytes table)) (List.mem_cons_of_mem (field table 4 4) member)
    exact sigEvents_guarded mapped header bytes _ (by decide)
  · split
    · exact sumEvents_guarded whole (List.mem_cons_self ..)
    · trivial

theorem scanEvents_guarded {width : Nat} {places : List Nat}
    (each : ∀ place ∈ places, Proper before (.reads (pointer place) width)) : Guarded before (scanEvents bytes width places) := by
  induction places generalizing before with
  | nil => trivial
  | cons place rest ih =>
    have later {more : List TableEvent} (wider : before ⊆ more) : Guarded more (scanEvents bytes width rest) :=
      guarded_wider wider (ih fun place member => each place (List.mem_cons_of_mem _ member))
    refine ⟨each place (List.mem_cons_self ..),?_⟩
    split
    next checked =>
      refine ⟨checked.2,guarded_joins (entryEvents_guarded checked.2 (List.mem_cons_self ..)) ?_⟩
      split
      · trivial
      · exact later fun event member => List.mem_cons_of_mem _ (List.mem_cons_of_mem _ member)
    next => exact later (List.subset_cons_self _ _)

theorem rootEvents_guarded (width root : Nat) (sig : List Char) : Guarded before (rootEvents bytes width root sig) := by
  unfold rootEvents
  split
  next mapped =>
    have header : TableEvent.validated root 36 ∈ .validated root 36::before := List.mem_cons_self ..
    refine ⟨mapped,guarded_joins (sigEvents_guarded mapped header bytes sig (by decide)) ?_⟩
    split
    next =>
      refine measured_guarded mapped header (by decide) fun whole => ?_
      have known : TableEvent.validated root (sdtLength bytes root) ∈
          .validated root (sdtLength bytes root)::field root 4 4::.validated root 36::before := List.mem_cons_self ..
      refine guarded_joins (sumEvents_guarded whole known) ?_
      split
      next =>
        apply scanEvents_guarded
        intro place member
        obtain ⟨i,below,rfl⟩ := List.mem_map.mp member
        have room := List.mem_range.mp below
        have last : 36 + i * width + width ≤ sdtLength bytes root := by
          have fits := Nat.div_mul_le_self (sdtLength bytes root - 36) width
          have within : (i + 1) * width ≤ (sdtLength bytes root - 36) / width * width := Nat.mul_le_mul_right _ room
          have positive : 0 < (sdtLength bytes root - 36) / width := by omega
          rw [Nat.succ_mul] at within
          have large : 0 < sdtLength bytes root - 36 := Nat.pos_of_div_pos positive
          omega
        rw [Nat.add_assoc]
        exact field_proper whole known last
      next => trivial
    next => trivial
  next => trivial

theorem findEvents_guarded (rsdt xsdt revision : Nat) : Guarded before (findEvents bytes rsdt xsdt revision) := by
  unfold findEvents
  refine guarded_joins ?_ ?_
  · split
    · exact rootEvents_guarded ..
    · trivial
  · split
    · trivial
    · exact rootEvents_guarded ..

theorem tagEvents_guarded (finish tag : Nat) : Guarded before (tagEvents bytes finish tag) := by
  unfold tagEvents
  split
  · dsimp only
    split
    · exact findEvents_guarded ..
    · split
      · exact findEvents_guarded ..
      · trivial
  · trivial

end Finding

section Found
variable {bytes : Nat → Byte} {table : Nat}

theorem isMadt_low (found : isMadt bytes table) : identityRangeOk table 36 ∧ table < 2^32 := by
  unfold isMadt at found
  have mapped := (Bool.and_eq_true_iff.mp found).1
  have low := identityRangeOk_iff.mp mapped
  exact ⟨mapped,by omega⟩

/-- The entry of an XSDT or of an RSDT. -/
theorem scanEvents_found {width : Nat} {places : List Nat}
    (found : (places.map (entryAt bytes width)).find? (isMadt bytes) = some table) : .validated table 36 ∈ scanEvents bytes width places := by
  induction places with
  | nil => cases found
  | cons place rest ih =>
    rw [List.map_cons,List.find?_cons] at found
    unfold scanEvents
    dsimp only
    apply List.mem_cons_of_mem
    split at found
    next madt =>
      cases found
      have low := isMadt_low madt
      rw [if_pos ⟨low.2,low.1⟩]
      exact List.mem_cons_self ..
    next other =>
      have later := ih found
      split
      · rw [other]
        exact List.mem_cons_of_mem _ (List.mem_append_right _ later)
      · exact later

theorem rootEvents_found {width root : Nat} {sig : List Char} (mapped : identityRangeOk root 36) (valid : sdtValid bytes root sig)
    (found : .validated table 36 ∈ scanEvents bytes width
      ((List.range ((sdtLength bytes root - 36) / width)).map fun i => root + 36 + i * width)) :
    .validated table 36 ∈ rootEvents bytes width root sig := by
  unfold sdtValid at valid
  simp only [Bool.and_eq_true,decide_eq_true_eq,beq_iff_eq] at valid
  obtain ⟨⟨⟨signed,long⟩,whole⟩,summed⟩ := valid
  unfold rootEvents measured
  rw [if_pos mapped,if_pos signed,if_pos ⟨long,whole⟩,if_pos summed]
  apply List.mem_cons_of_mem
  apply List.mem_append_right
  apply List.mem_cons_of_mem
  apply List.mem_cons_of_mem
  exact List.mem_append_right _ found

theorem xsdtTables_find (root : Nat) : (xsdtTables bytes root).find? (isMadt bytes) =
    (((List.range ((sdtLength bytes root - 36) / 8)).map fun i => root + 36 + i * 8).map (entryAt bytes 8)).find?
      (isMadt bytes) := by
  unfold xsdtTables
  rw [List.find?_filter,List.map_map]
  refine congrArg₂ List.find? (funext fun table => ?_) rfl
  cases madt : isMadt bytes table with
  | false => exact decide_eq_false fun both => Bool.false_ne_true both.2
  | true => exact decide_eq_true ⟨decide_eq_true (isMadt_low madt).2,rfl⟩

theorem rsdtTables_find (root : Nat) : (rsdtTables bytes root).find? (isMadt bytes) =
    (((List.range ((sdtLength bytes root - 36) / 4)).map fun i => root + 36 + i * 4).map (entryAt bytes 4)).find?
      (isMadt bytes) := by
  unfold rsdtTables
  rw [List.map_map]
  rfl

/-- The table that is found has passed the checks. -/
theorem acpiFindMadt_found {rsdt xsdt revision : Nat} (found : acpiFindMadt bytes rsdt xsdt revision = table)
    (real : table ≠ 0) : isMadt bytes table ∧ .validated table 36 ∈ findEvents bytes rsdt xsdt revision := by
  unfold acpiFindMadt at found
  unfold findEvents
  dsimp only at found ⊢
  split at found
  next => exact absurd found.symm real
  next mapped =>
    split at found
    next table' listed =>
      cases found
      split at listed
      next checked =>
        refine ⟨List.find?_some listed,List.mem_append_left _ ?_⟩
        have range : identityRangeOk xsdt 36 := Decidable.not_not.mp fun bad => mapped ⟨checked.1,bad⟩
        rw [if_pos checked.1]
        exact rootEvents_found range checked.2 (scanEvents_found ((xsdtTables_find xsdt).symm.trans listed))
      next => cases listed
    next unlisted =>
      split at found
      next checked =>
        cases listed : (rsdtTables bytes rsdt).find? (isMadt bytes) with
        | none =>
          rw [listed] at found
          exact absurd found.symm real
        | some table' =>
          rw [listed] at found
          cases found
          refine ⟨List.find?_some listed,List.mem_append_right _ ?_⟩
          rw [if_neg]
          · exact rootEvents_found checked.2.1 checked.2.2 (scanEvents_found ((rsdtTables_find rsdt).symm.trans listed))
          · intro ⟨extended,done⟩
            rcases done with bad | ⟨valid,listed'⟩
            · exact mapped ⟨extended,bad⟩
            · rw [if_pos ⟨extended,valid⟩] at unlisted
              rw [unlisted] at listed'
              cases listed'
      next => exact absurd found.symm real

theorem tagEvents_found {finish tag : Nat} (room : pointer (tag + 8) ≤ finish) (live : read32 bytes tag ≠ tagEnd)
    (root : rootTag bytes tag) (found : madtAt bytes tag = table) (real : table ≠ 0) :
    isMadt bytes table ∧ .validated table 36 ∈ tagEvents bytes finish tag := by
  unfold madtAt at found
  unfold tagEvents
  rw [if_pos ⟨room,live,root⟩]
  dsimp only at found ⊢
  split at found
  next summed =>
    rw [if_pos summed]
    exact acpiFindMadt_found found real
  next unsummed =>
    rw [if_neg unsummed]
    split at found
    next old =>
      rw [if_pos old]
      exact acpiFindMadt_found found real
    next => exact absurd found.symm real

end Found

section Traced
variable {bytes : Nat → Byte}

/-- The loop over the tags ends behind them with 0, or at one that leads to a MADT. -/
theorem acpiTurn_ends {finish tag value : Nat} {log : List Nat} (left : acpiTurn bytes finish tag = .ends log value) :
    (¬pointer (tag + 8) ≤ finish ∨ read32 bytes tag = tagEnd) ∧ value = 0 ∨
      pointer (tag + 8) ≤ finish ∧ read32 bytes tag ≠ tagEnd ∧ rootTag bytes tag ∧ madtAt bytes tag = value ∧ value ≠ 0 := by
  unfold acpiTurn at left
  split at left
  next beyond =>
    cases left
    exact .inl ⟨.inl beyond,rfl⟩
  next room =>
    split at left
    next closed =>
      cases left
      exact .inl ⟨.inr closed,rfl⟩
    next live =>
      split at left
      next root =>
        split at left
        next found =>
          cases left
          exact .inr ⟨Decidable.not_not.mp room,live,root,rfl,found⟩
        next => cases left
      next => cases left

theorem tags_traced {finish fuel start : Nat} {tags : List TableEvent × Nat}
    (done : loop (fun tag => (acpiTurn bytes finish tag).relog (tagEvents bytes finish tag)) fuel start = some tags) :
    Guarded [] tags.1 ∧ (tags.2 ≠ 0 → isMadt bytes tags.2 ∧ .validated tags.2 36 ∈ tags.1) := by
  constructor
  · refine (loop_keeps (fun _ => True) (fun _ => True) (fun _ _ => guarded_joins) ?_ ?_ trivial done).1
    · intro tag log value _ left
      rw [(relog_ends left).1]
      exact ⟨tagEvents_guarded finish tag,trivial⟩
    · intro tag log next _ on
      rw [(relog_goes on).1]
      exact ⟨tagEvents_guarded finish tag,trivial⟩
  · intro real
    obtain ⟨tag,log,_,left,logged⟩ := loop_last done
    obtain ⟨rfl,own,left⟩ := relog_ends left
    rcases acpiTurn_ends left with ⟨_,none⟩ | ⟨room,live,root,found,_⟩
    · exact absurd none real
    · obtain ⟨madt,checked⟩ := tagEvents_found room live root found real
      exact ⟨madt,logged checked⟩

/-- The fields of an entry lie in its MADT. -/
theorem madtEvents_guarded {before : List TableEvent} {madt length p : Nat} (mapped : identityRangeOk madt length)
    (member : .validated madt length ∈ before) (above : madt ≤ p) (below : p ≤ madt + length) :
    Guarded before (madtEvents bytes (pointer (madt + length)) p) := by
  have low := identityRangeOk_iff.mp mapped
  have within {skip count : Nat} (inside : p + skip + count ≤ madt + length) : Proper before (field p skip count) := by
    refine ⟨madt,length,member,?_⟩
    unfold pointer
    omega
  have room {skip : Nat} (short : skip < 2^8) : pointer (p + skip) ≤ pointer (madt + length) ↔ p + skip ≤ madt + length := by
    unfold pointer
    omega
  unfold madtEvents
  split
  next head =>
    have head := (room (by decide)).mp head
    apply guarded_each
    dsimp only
    have short := (bytes (pointer (p + 1))).isLt
    generalize (bytes (pointer (p + 1))).toNat = len at *
    rw [List.forall_mem_cons,List.forall_mem_cons]
    refine ⟨within (by omega),within (by omega),?_⟩
    split
    next => nofun
    next sized =>
      rw [not_or,Nat.not_lt,Nat.not_lt,room short] at sized
      split
      next kind =>
        rw [List.forall_mem_cons,List.forall_mem_singleton]
        exact ⟨within (by omega),within (by omega)⟩
      next =>
        split
        next kind =>
          rw [List.forall_mem_cons,List.forall_mem_singleton]
          exact ⟨within (by omega),within (by omega)⟩
        next => nofun
  next => trivial

theorem madtTraced_guarded {before : List TableEvent} {madt bspApic fuel : Nat} {cpus : Nat → CpuInfo}
    {result : List TableEvent × Nat × (Nat → CpuInfo)}
    (checked : madt ≠ 0 → isMadt bytes madt ∧ .validated madt 36 ∈ before)
    (done : madtTraced bytes madt bspApic fuel cpus = some result) : Guarded before result.1 := by
  unfold madtTraced at done
  split at done
  next =>
    cases done
    trivial
  next real =>
    obtain ⟨madt',header⟩ := checked real
    have size : Proper before (field madt 4 4) := field_proper (isMadt_low madt').1 header (by decide)
    dsimp only at done
    split at done
    next =>
      cases done
      exact ⟨size,trivial⟩
    next mapped =>
      rw [Decidable.not_not] at mapped
      split at done
      next =>
        cases done
        exact ⟨size,mapped,trivial⟩
      next least =>
        obtain ⟨turns,walked,rfl⟩ := Option.map_eq_some_iff.mp done
        refine ⟨size,mapped,?_⟩
        generalize whole : sdtLength bytes madt = length at *
        have low := identityRangeOk_iff.mp mapped
        have known : TableEvent.validated madt length ∈ .validated madt length::field madt 4 4::before := List.mem_cons_self ..
        refine (loop_keeps (fun e : Enumeration => madt ≤ e.p ∧ e.p ≤ madt + length) (fun _ => True)
          (fun _ _ => guarded_joins) ?_ ?_ ?_ walked).1
        · intro e log value inside left
          rw [(relog_ends left).1]
          exact ⟨madtEvents_guarded mapped known inside.1 inside.2,trivial⟩
        · intro e log next inside on
          obtain ⟨rfl,goes⟩ := relog_goes on
          refine ⟨madtEvents_guarded mapped known inside.1 inside.2,?_⟩
          obtain ⟨_,len,_,short,place,after⟩ := madtTurn_next goes
          unfold pointer at place after
          omega
        · dsimp only [pointer]
          omega

/-- Every table is read within ranges that were checked before. -/
theorem acpiTraced_guarded {mb2 bspApic fuel : Nat} {cpus : Nat → CpuInfo} {result : List TableEvent × Nat × (Nat → CpuInfo)}
    (done : acpiTraced bytes mb2 bspApic fuel cpus = some result) : Guarded [] result.1 := by
  unfold acpiTraced at done
  split at done
  next =>
    cases done
    trivial
  next =>
    dsimp only at done
    split at done
    next => cases done
    next tags walked =>
      obtain ⟨rest,enumerated,rfl⟩ := Option.map_eq_some_iff.mp done
      obtain ⟨guarded,checked⟩ := tags_traced walked
      refine guarded_append.mpr ⟨guarded,madtTraced_guarded (fun real => ?_) enumerated⟩
      rw [List.append_nil]
      exact ⟨(checked real).1,List.mem_reverse.mpr (checked real).2⟩

/-- The log changes nothing. -/
theorem madtTraced_enumerates (madt bspApic fuel : Nat) (cpus : Nat → CpuInfo) :
    (madtTraced bytes madt bspApic fuel cpus).map Prod.snd = enumerateMadt bytes madt bspApic fuel cpus := by
  unfold madtTraced enumerateMadt
  dsimp only
  by_cases none : madt = 0
  · rw [if_pos none,if_pos none]
    rfl
  rw [if_neg none,if_neg none]
  by_cases mapped : identityRangeOk madt (sdtLength bytes madt)
  · rw [if_neg (Decidable.not_not.mpr mapped)]
    by_cases short : sdtLength bytes madt < 44
    · rw [if_pos short,if_pos (.inr short)]
      rfl
    · rw [if_neg short,if_neg (by rw [not_or]; exact ⟨Decidable.not_not.mpr mapped,short⟩),Option.map_map]
      let start : Enumeration := ⟨pointer (madt + 44),0,0xFFFFFFFF,cpus⟩
      let endm := pointer (madt + sdtLength bytes madt)
      have same := loop_relog (madtTurn bytes endm bspApic) (fun e => madtEvents bytes endm e.p) fuel start
      have settled := congrArg (Option.map Enumeration.settle) same
      rw [Option.map_map,Option.map_map] at settled
      exact settled
  · rw [if_pos mapped,if_pos (.inl mapped)]
    rfl

theorem acpiTraced_enumerates (mb2 bspApic fuel : Nat) (cpus : Nat → CpuInfo) :
    (acpiTraced bytes mb2 bspApic fuel cpus).map Prod.snd = (acpiEnumerate bytes mb2 bspApic fuel cpus).map Prod.snd := by
  unfold acpiTraced acpiEnumerate
  by_cases null : mb2 = 0
  · rw [if_pos null,if_pos null]
    rfl
  rw [if_neg null,if_neg null]
  dsimp only
  generalize pointer (mb2 + read32 bytes mb2) = finish
  have same := loop_relog (acpiTurn bytes finish) (tagEvents bytes finish) fuel (pointer (mb2 + 8))
  cases walked : loop (acpiTurn bytes finish) fuel (pointer (mb2 + 8)) with
  | none =>
    rw [walked] at same
    rw [Option.map_eq_none_iff.mp same]
    rfl
  | some tags =>
    rw [walked] at same
    obtain ⟨tags',walked',value⟩ := Option.map_eq_some_iff.mp same
    rw [walked']
    dsimp only
    rw [Option.map_map,Option.map_map,value,← madtTraced_enumerates,Option.map_map]
    rfl

end Traced

end LionOS.Boot
