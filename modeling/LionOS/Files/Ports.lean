import LionOS.Files.DiskFs
import LionOS.Library.Simulation

/-! The ATA driver on the ports of a drive, and that the drive under it is the disk of sectors on
which LionFS stands. -/
namespace LionOS.Ata
open LionOS.Files LionOS.Library
open LionOS.Physical (Byte)

abbrev Word := BitVec 16

def ataSeccount0 : Nat := 0x1F2
def ataLba0 : Nat := 0x1F3
def ataLba1 : Nat := 0x1F4
def ataLba2 : Nat := 0x1F5
def ataHddevsel : Nat := 0x1F6
def ataCommand : Nat := 0x1F7
def ataCmdRead : Byte := 0x20
def ataCmdWrite : Byte := 0x30
def ataSrBsy : Byte := 0x80
def ataSrDrq : Byte := 0x08
def ataSrErr : Byte := 0x01
def ataSrDf : Byte := 0x20
def ataTimeout : Nat := 1000000
def sectorWords : Nat := 256

def Word.lo (w : Word) : Byte := w.setWidth 8
def Word.hi (w : Word) : Byte := (w >>> 8).setWidth 8

/-- Two bytes as the processor loads them. -/
def word (s : Sector) (i : Nat) : Word := s (2 * i + 1) ++ s (2 * i)

/-- The words as the processor stores them. -/
def stored (words : List Word) : Sector := fun k =>
  if k % 2 = 0 then (words.getD (k / 2) 0).lo else (words.getD (k / 2) 0).hi

/-- How the drive serves a command: the status reads that find it busy before the data and, for a
write, after the data; and whether it reports an error, `late` for a write whose data it takes first. -/
structure Service where
  busy : Nat
  settles : Nat
  fails : Bool
  late : Bool

inductive Phase
  | idle
  | failed
  | sends (lba count : Nat)
  | takes (lba : Nat) (words : List Word) (service : Service)

/-- The status of a drive that is not busy: it is ready, and reports an error or asks for data. -/
def Phase.status : Phase → Byte
  | .idle => 0x50
  | .failed => 0x51
  | .sends _ _ | .takes _ _ _ => 0x58

def Phase.transfers : Phase → Bool
  | .sends _ _ | .takes _ _ _ => true
  | _ => false

def Phase.sound : Phase → Bool
  | .failed => false
  | _ => true

/-- The registers of a drive of 2^28 sectors behind the ports, and how it will serve the commands to
come; past the end of the list it serves them at once. -/
structure Drive where
  present : Bool
  sectors : Nat → Sector
  device : Byte
  count : Byte
  lba0 : Byte
  lba1 : Byte
  lba2 : Byte
  phase : Phase
  busy : Nat
  services : List Service

/-- A read of the status register. -/
def Drive.inb (d : Drive) : Byte × Drive :=
  if d.present = false then (0,d)
  else match d.busy with
    | n+1 => (ataSrBsy,{d with busy := n})
    | 0 => (d.phase.status,d)

/-- The sector that the registers address. -/
def Drive.address (d : Drive) : Nat :=
  d.device.toNat % 16 * 2^24 + d.lba2.toNat * 2^16 + d.lba1.toNat * 2^8 + d.lba0.toNat

/-- A command to the first drive, for one sector by its number; any other fails. -/
def Drive.command (d : Drive) (c : Byte) : Drive :=
  let service := d.services.headD ⟨0,0,false,false⟩
  let phase :=
    if d.device &&& 0xF0 ≠ 0xE0 ∨ d.count ≠ 1 then .failed
    else if c = ataCmdRead then if service.fails then .failed else .sends d.address 0
    else if c = ataCmdWrite then if service.fails && !service.late then .failed else .takes d.address [] service
    else .failed
  {d with phase,busy := service.busy,services := d.services.tail}

/-- A busy drive does not take what is written to its registers. -/
def Drive.outb (d : Drive) (port : Nat) (value : Byte) : Drive :=
  if d.busy ≠ 0 then d
  else if port = ataSeccount0 then {d with count := value}
  else if port = ataLba0 then {d with lba0 := value}
  else if port = ataLba1 then {d with lba1 := value}
  else if port = ataLba2 then {d with lba2 := value}
  else if port = ataHddevsel then {d with device := value}
  else if port = ataCommand then d.command value
  else d

/-- A read of the data register. -/
def Drive.inw (d : Drive) : Word × Drive :=
  match d.phase with
  | .sends lba count =>
    (word (d.sectors lba) count,{d with phase := if count + 1 < 256 then .sends lba (count + 1) else .idle})
  | _ => (0xFFFF,d)

/-- A write of the data register. -/
def Drive.outw (d : Drive) (w : Word) : Drive :=
  match d.phase with
  | .takes lba words service =>
    if words.length + 1 < 256 then {d with phase := .takes lba (words ++ [w]) service}
    else if service.fails then {d with phase := .failed,busy := service.settles}
    else {d with
      sectors := Function.update d.sectors lba (stored (words ++ [w])),phase := .idle,busy := service.settles}
  | _ => d

/-- The loop of `wait_not_busy` with the turns that are left. -/
def waitNotBusyFrom : Nat → Drive → Bool × Drive
  | 0, d => (false,d)
  | n+1, d =>
    let (status,d) := d.inb
    if status = 0 then (false,d)
    else if status &&& ataSrBsy = 0 then (decide (status &&& (ataSrErr ||| ataSrDf) = 0),d)
    else waitNotBusyFrom n d

def waitNotBusy (d : Drive) : Bool × Drive := waitNotBusyFrom ataTimeout d

def waitDrqFrom : Nat → Drive → Bool × Drive
  | 0, d => (false,d)
  | n+1, d =>
    let (status,d) := d.inb
    if status = 0 then (false,d)
    else if status &&& (ataSrErr ||| ataSrDf) ≠ 0 then (false,d)
    else if status &&& ataSrBsy = 0 ∧ status &&& ataSrDrq ≠ 0 then (true,d)
    else waitDrqFrom n d

def waitDrq (d : Drive) : Bool × Drive := waitDrqFrom ataTimeout d

def selectLba (d : Drive) (lba : Nat) : Drive :=
  let d := d.outb ataHddevsel (0xE0 ||| BitVec.ofNat 8 (lba / 2^24 % 16))
  let d := (fun d : Drive => d.inb.2)^[400] d
  let d := d.outb ataSeccount0 1
  let d := d.outb ataLba0 (BitVec.ofNat 8 lba)
  let d := d.outb ataLba1 (BitVec.ofNat 8 (lba / 2^8))
  d.outb ataLba2 (BitVec.ofNat 8 (lba / 2^16))

def ataInit (d : Drive) : Bool × Drive := waitNotBusy (d.outb ataHddevsel 0xE0)

def readWords : Nat → Drive → List Word × Drive
  | 0, d => ([],d)
  | n+1, d =>
    let (w,d) := d.inw
    let (rest,d) := readWords n d
    (w::rest,d)

/-- `ata_read_sector` into a buffer that is not null. -/
def ataReadSector (d : Drive) (lba : Nat) : Option Sector × Drive :=
  let d := selectLba d lba
  match waitDrq (d.outb ataCommand ataCmdRead) with
  | (false,d) => (none,d)
  | (true,d) =>
    let (words,d) := readWords sectorWords d
    (some (stored words),d.inb.2)

def ataWriteSector (d : Drive) (lba : Nat) (src : Sector) : Bool × Drive :=
  let d := selectLba d lba
  match waitDrq (d.outb ataCommand ataCmdWrite) with
  | (false,d) => (false,d)
  | (true,d) => waitNotBusy (((List.range sectorWords).map (word src)).foldl Drive.outw d)

inductive Transfer
  | read (lba : Nat)
  | write (lba : Nat) (sector : Sector)

def Transfer.lba : Transfer → Nat
  | .read lba | .write lba _ => lba

/-- The bytes that a sector has. -/
def contents (s : Sector) : List Byte := (List.range 512).map s

/-- The driver, and what its caller gets: nothing for -1, or the bytes in the buffer of a read. -/
def ports : Machine Drive Transfer (Option (List Byte))
  | d, .read lba =>
    let (got,d) := ataReadSector d lba
    (d,got.map contents)
  | d, .write lba sector =>
    let (ok,d) := ataWriteSector d lba sector
    (d,if ok then some [] else none)

/-- The disk of sectors with its transfers. -/
def sectors : Machine Disk Transfer (Option (List Byte))
  | disk, .read lba =>
    let (disk,got) := Files.ataReadSector disk lba
    (disk,got.map contents)
  | disk, .write lba sector =>
    let (disk,ok) := Files.ataWriteSector disk lba sector
    (disk,if ok then some [] else none)

/-- Between two transfers the drive holds what the disk holds, and the transfers to come fail for
both. The drive is never busy for so long that the driver gives up. -/
structure Stands (d : Drive) (disk : Disk) : Prop where
  present : d.present = true
  free : d.busy = 0
  rests : d.phase = .idle ∨ d.phase = .failed
  timely : ∀ s ∈ d.services, s.busy < ataTimeout ∧ s.settles < ataTimeout
  faults : disk.faults = d.services.map Service.fails
  same : ∀ lba < 2^28, ∀ k < 512, d.sectors lba k = disk.sectors lba k

section Words

theorem word_lo (s : Sector) (i : Nat) : (word s i).lo = s (2 * i) := BitVec.setWidth_append_eq_right

theorem word_hi (s : Sector) (i : Nat) : (word s i).hi = s (2 * i + 1) := by
  change ((s (2 * i + 1) ++ s (2 * i) : BitVec (8 + 8)) >>> 8).setWidth 8 = _
  ext k inside
  rw [BitVec.getElem_setWidth,BitVec.getLsbD_ushiftRight,BitVec.getLsbD_append]
  simp [inside]

/-- Stored again, the words of a sector are the sector. -/
theorem stored_word (s : Sector) {k : Nat} (inside : k < 512) : stored ((List.range 256).map (word s)) k = s k := by
  have half : k / 2 < 256 := by omega
  have entry : ((List.range 256).map (word s)).getD (k / 2) 0 = word s (k / 2) := by
    simp [List.getD_eq_getElem?_getD,half]
  unfold stored
  rw [entry]
  split
  · rw [word_lo]
    congr 1
    omega
  · rw [word_hi]
    congr 1
    omega

end Words

section Polling
variable {d : Drive}

theorem Drive.inb_busy (present : d.present = true) {n : Nat} (busy : d.busy = n + 1) :
    d.inb = (ataSrBsy,{d with busy := n}) := by
  simp [Drive.inb,present,busy]

theorem Drive.inb_free (present : d.present = true) (free : d.busy = 0) : d.inb = (d.phase.status,d) := by
  simp [Drive.inb,present,free]

theorem waitDrqFrom_ends {n : Nat} (present : d.present = true) (enough : d.busy < n) (asked : d.phase ≠ .idle) :
    waitDrqFrom n d = (d.phase.transfers,{d with busy := 0}) := by
  induction n generalizing d with
  | zero => omega
  | succ n ih =>
    rw [waitDrqFrom]
    cases busy : d.busy with
    | zero =>
      rw [Drive.inb_free present busy]
      have same : {d with busy := 0} = d := by rw [← busy]
      rw [same]
      dsimp only
      cases phase : d.phase with
      | idle => exact absurd phase asked
      | failed => rfl
      | sends lba count =>
        rw [show (Phase.sends lba count).status = 0x58 from rfl]
        rfl
      | takes lba words service =>
        rw [show (Phase.takes lba words service).status = 0x58 from rfl]
        rfl
    | succ m =>
      rw [Drive.inb_busy present busy]
      dsimp only
      rw [if_neg (by decide),if_neg (by decide),if_neg (by decide)]
      exact @ih {d with busy := m} present (by simp only; omega) asked

theorem waitNotBusyFrom_ends {n : Nat} (present : d.present = true) (enough : d.busy < n) :
    waitNotBusyFrom n d = (d.phase.sound,{d with busy := 0}) := by
  induction n generalizing d with
  | zero => omega
  | succ n ih =>
    rw [waitNotBusyFrom]
    cases busy : d.busy with
    | zero =>
      rw [Drive.inb_free present busy]
      have same : {d with busy := 0} = d := by rw [← busy]
      rw [same]
      cases phase : d.phase with
      | idle => rfl
      | failed => rfl
      | sends lba count =>
        rw [show (Phase.sends lba count).status = 0x58 from rfl]
        rfl
      | takes lba words service =>
        rw [show (Phase.takes lba words service).status = 0x58 from rfl]
        rfl
    | succ m =>
      rw [Drive.inb_busy present busy]
      exact @ih {d with busy := m} present (by simp only; omega)

end Polling

section Registers
variable {d : Drive} {lba : Nat}

/-- The registers after `select_lba`. -/
def Drive.addressed (d : Drive) (lba : Nat) : Drive :=
  {d with
    device := 0xE0 ||| BitVec.ofNat 8 (lba / 2^24 % 16),count := 1,lba0 := BitVec.ofNat 8 lba
    lba1 := BitVec.ofNat 8 (lba / 2^8),lba2 := BitVec.ofNat 8 (lba / 2^16)}

theorem selectLba_free (present : d.present = true) (free : d.busy = 0) : selectLba d lba = d.addressed lba := by
  have still (d : Drive) (present : d.present = true) (free : d.busy = 0) : (fun d : Drive => d.inb.2)^[400] d = d := by
    refine Function.iterate_fixed ?_ 400
    simp only [Drive.inb_free present free]
  rw [selectLba,still]
  · simp [Drive.outb,free,Drive.addressed,ataHddevsel,ataSeccount0,ataLba0,ataLba1,ataLba2]
  · simpa [Drive.outb,free,ataHddevsel,ataSeccount0,ataLba0,ataLba1,ataLba2] using present
  · simp [Drive.outb,free,ataHddevsel,ataSeccount0,ataLba0,ataLba1,ataLba2]

theorem device_bits : ∀ n < 16, (0xE0 ||| BitVec.ofNat 8 n : Byte) &&& 0xF0 = 0xE0 ∧
    (0xE0 ||| BitVec.ofNat 8 n : Byte).toNat % 16 = n := by decide

/-- The registers address the sector that the caller asked for. -/
theorem address_addressed (small : lba < 2^28) : (d.addressed lba).address = lba := by
  have bits := (device_bits (lba / 2^24 % 16) (Nat.mod_lt _ (by decide))).2
  simp only [Drive.address,Drive.addressed,bits,BitVec.toNat_ofNat]
  omega

/-- What the two commands of the driver leave, `service` the next one of the drive. -/
def Drive.commanded (d : Drive) (lba : Nat) (service : Service) (phase : Phase) : Drive :=
  {d.addressed lba with phase,busy := service.busy,services := d.services.tail}

theorem command_read (free : d.busy = 0) (small : lba < 2^28) :
    (d.addressed lba).outb ataCommand ataCmdRead =
      d.commanded lba (d.services.headD ⟨0,0,false,false⟩)
        (if (d.services.headD ⟨0,0,false,false⟩).fails then .failed else .sends lba 0) := by
  have bits := (device_bits (lba / 2^24 % 16) (Nat.mod_lt _ (by decide))).1
  have device : ¬ ((d.addressed lba).device &&& 0xF0 ≠ 0xE0 ∨ (d.addressed lba).count ≠ 1) := by
    rw [not_or,not_not,not_not]
    exact ⟨bits,rfl⟩
  have out : (d.addressed lba).outb ataCommand ataCmdRead = (d.addressed lba).command ataCmdRead :=
    if_neg (not_not.mpr free)
  rw [out,Drive.command,if_neg device,if_pos rfl,address_addressed small]
  rfl

theorem command_write (free : d.busy = 0) (small : lba < 2^28) :
    (d.addressed lba).outb ataCommand ataCmdWrite =
      d.commanded lba (d.services.headD ⟨0,0,false,false⟩)
        (if (d.services.headD ⟨0,0,false,false⟩).fails && !(d.services.headD ⟨0,0,false,false⟩).late then .failed
          else .takes lba [] (d.services.headD ⟨0,0,false,false⟩)) := by
  have bits := (device_bits (lba / 2^24 % 16) (Nat.mod_lt _ (by decide))).1
  have device : ¬ ((d.addressed lba).device &&& 0xF0 ≠ 0xE0 ∨ (d.addressed lba).count ≠ 1) := by
    rw [not_or,not_not,not_not]
    exact ⟨bits,rfl⟩
  have out : (d.addressed lba).outb ataCommand ataCmdWrite = (d.addressed lba).command ataCmdWrite :=
    if_neg (not_not.mpr free)
  rw [out,Drive.command,if_neg device,if_neg (by decide),if_pos rfl,address_addressed small]
  rfl

end Registers

section Data

/-- The words that a drive still sends, in their order. -/
theorem readWords_sends {d : Drive} {lba count n : Nat} (phase : d.phase = .sends lba count) (few : count + n ≤ 256) (some_ : count < 256) :
    readWords n d = ((List.range' count n).map (word (d.sectors lba)),
      {d with phase := if count + n < 256 then .sends lba (count + n) else .idle}) := by
  induction n generalizing d count with
  | zero =>
    rw [Nat.add_zero,if_pos some_,← phase]
    rfl
  | succ n ih =>
    rw [readWords,Drive.inw,phase]
    dsimp only
    cases n with
    | zero => rfl
    | succ n =>
      rw [if_pos (by omega),@ih {d with phase := .sends lba (count + 1)} (count + 1) rfl (by omega) (by omega)]
      rw [List.range'_succ (n := n + 1),List.map_cons,Nat.add_right_comm count 1]
      rfl

/-- With its last word the drive has the sector, unless it reports an error then. -/
theorem outw_takes {d : Drive} {lba : Nat} {service : Service} {done words : List Word} (phase : d.phase = .takes lba done service)
    (full : done.length + words.length = 256) (some_ : words ≠ []) :
    words.foldl Drive.outw d =
      if service.fails then {d with phase := .failed,busy := service.settles}
      else {d with
        sectors := Function.update d.sectors lba (stored (done ++ words)),phase := .idle,busy := service.settles} := by
  induction words generalizing d done with
  | nil => exact absurd rfl some_
  | cons w rest ih =>
    rw [List.foldl_cons,Drive.outw,phase]
    dsimp only
    rw [List.length_cons] at full
    cases rest with
    | nil => rw [if_neg (by simp only [List.length_nil] at full; omega),List.foldl_nil]
    | cons w' rest =>
      rw [if_pos (by simp only [List.length_cons] at full; omega),
        @ih {d with phase := .takes lba (done ++ [w]) service} (done ++ [w]) rfl
          (by rw [List.length_append,List.length_singleton]; omega) (by simp)]
      rw [List.append_assoc,List.singleton_append]

end Data

section Transfers
variable {d : Drive} {disk : Disk} {lba : Nat}

theorem nextFault_service (faults : disk.faults = d.services.map Service.fails) :
    nextFault disk = ({disk with faults := d.services.tail.map Service.fails},(d.services.headD ⟨0,0,false,false⟩).fails) := by
  obtain ⟨held,pending⟩ := disk
  change pending = _ at faults
  subst faults
  cases d.services with
  | nil => rfl
  | cons s rest => rfl

theorem Stands.timely_next (stands : Stands d disk) :
    (d.services.headD ⟨0,0,false,false⟩).busy < ataTimeout ∧ (d.services.headD ⟨0,0,false,false⟩).settles < ataTimeout := by
  cases services : d.services with
  | nil => exact ⟨Nat.zero_lt_succ _,Nat.zero_lt_succ _⟩
  | cons s rest => exact stands.timely s (by rw [services]; exact List.mem_cons_self)

theorem Stands.timely_later (stands : Stands d disk) : ∀ s ∈ d.services.tail, s.busy < ataTimeout ∧ s.settles < ataTimeout :=
  fun s member => stands.timely s (List.mem_of_mem_tail member)

/-- A read of a sector, between two transfers. -/
theorem ataReadSector_stands (stands : Stands d disk) (small : lba < 2^28) :
    ((ataReadSector d lba).1.map contents = (Files.ataReadSector disk lba).2.map contents) ∧
      Stands (ataReadSector d lba).2 (Files.ataReadSector disk lba).1 := by
  obtain ⟨timely,_⟩ := stands.timely_next
  have later := stands.timely_later
  unfold ataReadSector Files.ataReadSector
  simp only [nextFault_service stands.faults,selectLba_free stands.present stands.free,command_read stands.free small]
  generalize d.services.headD ⟨0,0,false,false⟩ = service at *
  cases fails : service.fails with
  | true =>
    have ends : waitDrqFrom ataTimeout (d.commanded lba service .failed) = (false,_) :=
      waitDrqFrom_ends stands.present timely (by simp [Drive.commanded])
    simp only [if_true,waitDrq,ends]
    exact ⟨trivial,stands.present,rfl,.inr rfl,later,rfl,stands.same⟩
  | false =>
    have ends : waitDrqFrom ataTimeout (d.commanded lba service (.sends lba 0)) = (true,_) :=
      waitDrqFrom_ends stands.present timely (by simp [Drive.commanded])
    have words := @readWords_sends {d.commanded lba service (.sends lba 0) with busy := 0} lba 0 sectorWords rfl (by decide) (by decide)
    simp only [Bool.false_eq_true,if_false,waitDrq,ends,words]
    refine ⟨?_,?_⟩
    · rw [Option.map_some,Option.map_some,Option.some_inj]
      refine List.map_congr_left fun k member => ?_
      have inside := List.mem_range.mp member
      rw [← List.range_eq_range']
      exact (stored_word _ inside).trans (stands.same lba small k inside)
    · rw [Drive.inb_free]
      · exact ⟨stands.present,rfl,.inl rfl,later,rfl,stands.same⟩
      · exact stands.present
      · rfl

theorem ataWriteSector_stands (stands : Stands d disk) (small : lba < 2^28) (src : Sector) :
    (ataWriteSector d lba src).1 = (Files.ataWriteSector disk lba src).2 ∧
      Stands (ataWriteSector d lba src).2 (Files.ataWriteSector disk lba src).1 := by
  obtain ⟨timely,settles⟩ := stands.timely_next
  have later := stands.timely_later
  unfold ataWriteSector Files.ataWriteSector
  simp only [nextFault_service stands.faults,selectLba_free stands.present stands.free,command_write stands.free small]
  generalize d.services.headD ⟨0,0,false,false⟩ = service at *
  cases refused : service.fails && !service.late with
  | true =>
    have ends : waitDrqFrom ataTimeout (d.commanded lba service .failed) = (false,_) :=
      waitDrqFrom_ends stands.present timely (by simp [Drive.commanded])
    simp only [if_true,waitDrq,ends,(Bool.and_eq_true_iff.mp refused).1]
    exact ⟨trivial,stands.present,rfl,.inr rfl,later,rfl,stands.same⟩
  | false =>
    have ends : waitDrqFrom ataTimeout (d.commanded lba service (.takes lba [] service)) = (true,_) :=
      waitDrqFrom_ends stands.present timely (by simp [Drive.commanded])
    have taken := @outw_takes {d.commanded lba service (.takes lba [] service) with busy := 0} lba service []
      ((List.range sectorWords).map (word src)) rfl (by simp [sectorWords]) (by simp [sectorWords])
    simp only [Bool.false_eq_true,if_false,waitDrq,ends,taken,waitNotBusy]
    cases fails : service.fails with
    | true =>
      simp only [if_true]
      rw [waitNotBusyFrom_ends]
      · exact ⟨rfl,stands.present,rfl,.inr rfl,later,rfl,stands.same⟩
      · exact stands.present
      · exact settles
    | false =>
      simp only [Bool.false_eq_true,if_false]
      rw [waitNotBusyFrom_ends]
      · refine ⟨rfl,stands.present,rfl,.inl rfl,later,rfl,?_⟩
        intro other below k inside
        by_cases same : other = lba
        · rw [same,List.nil_append]
          simp only [Function.update_self]
          exact stored_word src inside
        · simp only [Function.update_of_ne same]
          exact stands.same other below k inside
      · exact stands.present
      · exact settles

/-- A drive is found between two transfers unless the last one failed. -/
theorem ataInit_stands (stands : Stands d disk) :
    (ataInit d).1 = d.phase.sound ∧ Stands (ataInit d).2 disk := by
  have selected : d.outb ataHddevsel 0xE0 = {d with device := 0xE0} := by
    rw [Drive.outb,if_neg (not_not.mpr stands.free)]
    rfl
  have ends : waitNotBusyFrom ataTimeout {d with device := 0xE0} = (d.phase.sound,_) :=
    waitNotBusyFrom_ends stands.present (by simp only [stands.free]; decide)
  rw [ataInit,selected,waitNotBusy,ends]
  exact ⟨rfl,stands.present,rfl,stands.rests,stands.timely,stands.faults,stands.same⟩

end Transfers

theorem ports_simulate : Simulates ports sectors (fun _ t => t.lba < 2^28) Stands where
  answer d disk t stands small := by
    cases t with
    | read lba =>
      rw [Transfer.lba] at small
      simp only [ports,sectors,(ataReadSector_stands stands small).1]
    | write lba src =>
      rw [Transfer.lba] at small
      simp only [ports,sectors,(ataWriteSector_stands stands small src).1]
  next d disk t stands small := by
    cases t with
    | read lba =>
      rw [Transfer.lba] at small
      simp only [Machine.step,ports,sectors,(ataReadSector_stands stands small).2]
    | write lba src =>
      rw [Transfer.lba] at small
      simp only [Machine.step,ports,sectors,(ataWriteSector_stands stands small src).2]

/-- A blank drive that is slow with its first transfer and fails the second one after it has taken the data. -/
def slowDrive : Drive :=
  ⟨true,fun _ _ => 0,0,0,0,0,0,.idle,0,[⟨3,2,false,false⟩,⟨0,9,true,true⟩]⟩

theorem slowDrive_stands : Stands slowDrive ⟨fun _ _ => 0,[false,true]⟩ where
  present := rfl
  free := rfl
  rests := .inl rfl
  timely := by
    intro s member
    simp only [slowDrive,List.mem_cons,List.not_mem_nil,or_false] at member
    obtain rfl | rfl := member
    · decide
    · decide
  faults := rfl
  same _ _ _ _ := rfl

end LionOS.Ata
