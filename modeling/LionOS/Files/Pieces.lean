import LionOS.Files.Appends

/-! Reading a file in pieces: the buffers that a sequence of reads leaves. -/
namespace LionOS.Files
open LionOS.Memory LionOS.Physical LionOS.Processes

/-- The loop that copies to the buffer of the caller. -/
def copyOut (wanted : Nat) (src buffer : Nat → Byte) : Nat → Byte :=
  (List.range wanted).foldl (fun buffer i => Function.update buffer i (src i)) buffer

/-- `read_slot` on the buffer of the caller, with its result. -/
def readInto (st : Store) (f : ProcessFd) (buffer : Nat → Byte) (length : Nat) : Store × ProcessFd × (Nat → Byte) × Int :=
  if f.used = false ∨ length > vfsIoMax ∨ flagged f.flags vfsFRead = false then (st,f,buffer,-1)
  else
    let size := fileSize st f.backend f.path
    if f.offset ≥ size then (st,f,buffer,0)
    else
      let wanted := if length > size - f.offset then size - f.offset else length
      let f' := {f with offset := f.offset + wanted}
      if f.backend = backendDiskfs then
        match kmalloc st.heap vfsIoMax with
        | none => (st,f,buffer,-1)
        | some (heap,temp) => match diskfsRead st.disk f.path vfsIoMax with
          | (disk,none) => ({st with disk,heap := kfree heap temp},f,buffer,-1)
          | (disk,some bytes) =>
            ({st with disk,heap := kfree heap temp},f',copyOut wanted (fun i => bytes.getD (f.offset + i) 0) buffer,wanted)
      else match ramfsData st.ram f.path with
        | none => (st,f,buffer,-1)
        | some data => (st,f',copyOut wanted (fun i => data (f.offset + i)) buffer,wanted)

/-- `vfs_read_for_process` on the buffer of the caller, with its result. -/
def vfsReadInto (st : Store) (p : Process) (fd : Int) (buffer : Nat → Byte) (length : Nat) :
    Store × Process × (Nat → Byte) × Int :=
  if fd < 0 ∨ fd ≥ vfsFdMax then (st,p,buffer,-1)
  else
    let (st,f,buffer,result) := readInto st (p.fds fd.toNat) buffer length
    (st,{p with fds := Function.update p.fds fd.toNat f},buffer,result)

theorem copyOut_at (wanted : Nat) (src buffer : Nat → Byte) (i : Nat) :
    copyOut wanted src buffer i = if i < wanted then src i else buffer i := by
  unfold copyOut
  induction wanted with
  | zero => rfl
  | succ wanted ih =>
    rw [List.range_succ,List.foldl_append,List.foldl_cons,List.foldl_nil]
    by_cases last : i = wanted
    · rw [last,Function.update_self,if_pos (Nat.lt_succ_self _)]
    · rw [Function.update_of_ne last,ih]
      by_cases inside : i < wanted
      · rw [if_pos inside,if_pos (Nat.lt_succ_of_lt inside)]
      · rw [if_neg inside,if_neg (by omega)]

/-- What a read does to the buffer and what it returns, given the bytes that it found. -/
def delivered (buffer : Nat → Byte) : Option (List Byte) → (Nat → Byte) × Int
  | none => (buffer,-1)
  | some bytes => (copyOut bytes.length (fun i => bytes.getD i 0) buffer,bytes.length)

theorem delivered_map (wanted : Nat) (src buffer : Nat → Byte) :
    delivered buffer (some ((List.range wanted).map src)) = (copyOut wanted src buffer,(wanted : Int)) := by
  have length : ((List.range wanted).map src).length = wanted := by rw [List.length_map,List.length_range]
  change (copyOut ((List.range wanted).map src).length _ buffer,(((List.range wanted).map src).length : Int)) = _
  rw [length]
  congr 1
  ext1 i
  rw [copyOut_at,copyOut_at]
  by_cases inside : i < wanted
  · rw [if_pos inside,if_pos inside,List.getD_eq_getElem _ _ (by rw [length]; exact inside),List.getElem_map,
      List.getElem_range]
  · rw [if_neg inside,if_neg inside]

/-- The buffer gets the bytes that the model of `read_slot` hands over. -/
theorem readInto_slot (st : Store) (f : ProcessFd) (buffer : Nat → Byte) (length : Nat) :
    readInto st f buffer length = ((readSlot st f length).1,(readSlot st f length).2.1,
      delivered buffer (readSlot st f length).2.2) := by
  have least (a b : Nat) : (if a > b then b else a) = min a b := by
    split
    · omega
    · omega
  unfold readInto readSlot
  split
  · rfl
  dsimp only
  split
  · rfl
  rw [least]
  split
  · rcases kmalloc st.heap vfsIoMax with _ | ⟨heap,temp⟩
    · rfl
    · dsimp only
      rcases diskfsRead st.disk f.path vfsIoMax with ⟨disk,_ | bytes⟩
      · rfl
      · dsimp only
        rw [delivered_map]
  · rcases ramfsData st.ram f.path with _ | data
    · rfl
    · dsimp only
      rw [delivered_map]

section Pieces
variable {st : Store} {f : ProcessFd} {disk : Bool} {path c : List Byte}

/-- A read on a file with a known content. -/
theorem readSlot_content {length : Nat} (onFile : OnFile f disk path) (readable : flagged f.flags vfsFRead = true)
    (present : fileContent st disk path = some c) (ready : st.disk.disk.faults = [])
    (room : disk = true → (kmalloc st.heap vfsIoMax).isSome) (short : length ≤ vfsIoMax) :
    (readSlot st f length).2 = ({f with offset := f.offset + min length (c.length - f.offset)},
      some ((c.drop f.offset).take length)) := by
  obtain ⟨used,kind,rfl⟩ := onFile
  rw [← kind] at present room
  have size := fileSize_content ready present
  unfold readSlot
  rw [if_neg (by rw [used,readable]; simp [Nat.not_lt.mpr short])]
  dsimp only
  rw [size]
  split
  next done =>
    rw [Nat.sub_eq_zero_of_le done,Nat.min_zero,Nat.add_zero,List.drop_of_length_le done,List.take_nil]
  next more =>
    have bytes (data : Nat → Byte) (same : ∀ i, i < c.length → data i = c.getD i 0) :
        (List.range (min length (c.length - f.offset))).map (fun i => data (f.offset + i)) =
          (c.drop f.offset).take length := by
      apply List.ext_getElem
      · rw [List.length_map,List.length_range,List.length_take,List.length_drop]
      · intro i left right
        rw [List.length_map,List.length_range] at left
        rw [List.getElem_map,List.getElem_range,List.getElem_take,List.getElem_drop,same _ (by omega),
          List.getD_eq_getElem _ _ (by omega)]
    split
    next isDisk =>
      have kindTrue : onDisk f.backend = true := beq_iff_eq.mpr isDisk
      obtain ⟨⟨heap,temp⟩,given⟩ := Option.isSome_iff_exists.mp (room kindTrue)
      rw [kindTrue] at present
      have read : (diskfsRead st.disk f.path vfsIoMax).2 = some c := present
      rw [given]
      dsimp only
      rcases made : diskfsRead st.disk f.path vfsIoMax with ⟨disk',_ | found⟩
      · rw [made] at read
        cases read
      · rw [made] at read
        cases read
        dsimp only
        rw [bytes (fun i => c.getD i 0) fun _ _ => rfl]
    next isRam =>
      rw [show onDisk f.backend = false from beq_eq_false_iff_ne.mpr isRam] at present
      obtain ⟨data,found,same⟩ := Option.map_eq_some_iff.mp present
      rw [found]
      dsimp only
      rw [bytes data (map_range_eq.mp same).2]

end Pieces

/-- A read of a process, with the state that it finds: between two reads the rest of the
system goes on. -/
structure Piece where
  store : Store
  process : Process
  buffer : Nat → Byte
  length : Nat

/-- The reads of a descriptor, one after the other: the buffers that they leave and their
results. -/
def readPieces (fd : Nat) : ProcessFd → List Piece → List ((Nat → Byte) × Int)
  | _, [] => []
  | f, piece::rest =>
    let process := {piece.process with fds := Function.update piece.process.fds fd f}
    let after := vfsReadInto piece.store process fd piece.buffer piece.length
    after.2.2::readPieces fd (after.2.1.fds fd) rest

def total (pieces : List Piece) : Nat := (pieces.map Piece.length).sum

/-- The bytes that a read has returned. -/
def returned (read : (Nat → Byte) × Int) : List Byte := (List.range read.2.toNat).map read.1

/-- The file has the content still, the request is of a legal length, and neither the device nor
the heap fails. -/
structure Piece.Fine (piece : Piece) (disk : Bool) (path c : List Byte) : Prop where
  present : fileContent piece.store disk path = some c
  ready : piece.store.disk.disk.faults = []
  room : disk = true → (kmalloc piece.store.heap vfsIoMax).isSome
  short : piece.length ≤ vfsIoMax

/-- A descriptor on the file that is open for reading. -/
structure Reader (f : ProcessFd) (disk : Bool) (path : List Byte) : Prop where
  onFile : OnFile f disk path
  readable : flagged f.flags vfsFRead = true

section Sequence
variable {fd : Nat} {f : ProcessFd} {disk : Bool} {path c : List Byte} {piece : Piece} {pieces : List Piece}

theorem vfsReadInto_slot (bound : fd < vfsFdMax) {p : Process} (held : p.fds fd = f) (st : Store) (buffer : Nat → Byte)
    (length : Nat) : ∃ st', vfsReadInto st p fd buffer length =
      (st',{p with fds := Function.update p.fds fd (readSlot st f length).2.1},delivered buffer (readSlot st f length).2.2) := by
  have legal : ¬((fd : Int) < 0 ∨ (fd : Int) ≥ vfsFdMax) := by omega
  rw [vfsReadInto,if_neg legal,Int.toNat_natCast,held,readInto_slot]
  exact ⟨_,rfl⟩

/-- One read gives the next bytes of the file, as far as there are some, and moves the offset
behind them. -/
theorem vfsReadInto_content (bound : fd < vfsFdMax) (reader : Reader f disk path) (fine : piece.Fine disk path c) :
    ∃ buffer : Nat → Byte, readPieces fd f (piece::pieces) = (buffer,((min piece.length (c.length - f.offset) : Nat) : Int))::
        readPieces fd {f with offset := f.offset + min piece.length (c.length - f.offset)} pieces ∧
      ∀ i, buffer i = if i < min piece.length (c.length - f.offset) then c.getD (f.offset + i) 0 else piece.buffer i := by
  have read := readSlot_content reader.onFile reader.readable fine.present fine.ready fine.room fine.short
  have bytes : ((c.drop f.offset).take piece.length).length = min piece.length (c.length - f.offset) := by
    rw [List.length_take,List.length_drop]
  refine ⟨(delivered piece.buffer (some ((c.drop f.offset).take piece.length))).1,?_,fun i => ?_⟩
  · have held : ({piece.process with fds := Function.update piece.process.fds fd f} : Process).fds fd = f :=
      Function.update_self fd f piece.process.fds
    obtain ⟨st',called⟩ := vfsReadInto_slot bound held piece.store piece.buffer piece.length
    rw [read] at called
    rw [readPieces]
    dsimp only at called ⊢
    rw [called]
    dsimp only
    rw [Function.update_self,← bytes,delivered]
  · change copyOut _ _ _ i = _
    rw [copyOut_at,bytes]
    split
    next early =>
      rw [List.getD_eq_getElem _ _ (by rw [bytes]; exact early),List.getElem_take,List.getElem_drop,
        List.getD_eq_getElem _ _ (by omega)]
    · rfl

theorem returned_content {buffer : Nat → Byte} {o n : Nat}
    (bytes : ∀ i, buffer i = if i < min n (c.length - o) then c.getD (o + i) 0 else piece.buffer i) :
    returned (buffer,((min n (c.length - o) : Nat) : Int)) = (c.drop o).take n := by
  apply List.ext_getElem
  · rw [returned,List.length_map,List.length_range,List.length_take,List.length_drop]
    rfl
  · intro i left right
    rw [returned,List.length_map,List.length_range] at left
    have early : i < min n (c.length - o) := left
    have byte := bytes i
    rw [if_pos early,List.getD_eq_getElem _ _ (by omega)] at byte
    rw [List.getElem_take,List.getElem_drop,← byte]
    simp only [returned,List.getElem_map,List.getElem_range]

/-- A sequence of reads returns the file from the offset on, as far as the lengths reach. -/
theorem readPieces_bytes (bound : fd < vfsFdMax) (reader : Reader f disk path)
    (fine : ∀ piece ∈ pieces, piece.Fine disk path c) :
    (readPieces fd f pieces).flatMap returned = (c.drop f.offset).take (total pieces) := by
  induction pieces generalizing f with
  | nil => rfl
  | cons piece rest ih =>
    obtain ⟨buffer,first,bytes⟩ := @vfsReadInto_content _ _ _ _ _ _ rest bound reader (fine piece List.mem_cons_self)
    have later := @ih {f with offset := f.offset + min piece.length (c.length - f.offset)} ⟨reader.onFile,reader.readable⟩
      fun p member => fine p (List.mem_cons_of_mem _ member)
    rw [first,List.flatMap_cons,returned_content bytes,later]
    dsimp only
    have moved : c.drop (f.offset + min piece.length (c.length - f.offset)) = (c.drop f.offset).drop piece.length := by
      rw [List.drop_drop]
      by_cases reaches : piece.length ≤ c.length - f.offset
      · rw [Nat.min_eq_left reaches]
      · rw [List.drop_of_length_le (by omega),List.drop_of_length_le (by omega)]
    have sum : total (piece::rest) = piece.length + total rest := List.sum_cons
    rw [moved,sum,List.take_add]

theorem readPieces_result (bound : fd < vfsFdMax) (reader : Reader f disk path)
    (fine : ∀ piece ∈ pieces, piece.Fine disk path c) (k : Nat) (inside : k < pieces.length) :
    ∃ buffer : Nat → Byte, (readPieces fd f pieces)[k]? =
        some (buffer,((min pieces[k].length (c.length - (f.offset + total (pieces.take k))) : Nat) : Int)) ∧
      ∀ i, min pieces[k].length (c.length - (f.offset + total (pieces.take k))) ≤ i → buffer i = pieces[k].buffer i := by
  induction pieces generalizing f k with
  | nil => exact absurd inside (Nat.not_lt_zero k)
  | cons piece rest ih =>
    obtain ⟨buffer,first,bytes⟩ := @vfsReadInto_content _ _ _ _ _ _ rest bound reader (fine piece List.mem_cons_self)
    rw [first]
    cases k with
    | zero =>
      refine ⟨buffer,rfl,fun i beyond => ?_⟩
      have none : total ((piece::rest).take 0) = 0 := rfl
      rw [none,Nat.add_zero] at beyond
      rw [bytes]
      exact if_neg (Nat.not_lt.mpr beyond)
    | succ k =>
      obtain ⟨last,found,still⟩ := @ih {f with offset := f.offset + min piece.length (c.length - f.offset)}
        ⟨reader.onFile,reader.readable⟩ (fun p member => fine p (List.mem_cons_of_mem _ member)) k (Nat.lt_of_succ_lt_succ inside)
      have moved : c.length - (f.offset + min piece.length (c.length - f.offset) + total (rest.take k)) =
          c.length - (f.offset + total ((piece::rest).take (k + 1))) := by
        have sum : total ((piece::rest).take (k + 1)) = piece.length + total (rest.take k) := rfl
        rw [sum]
        omega
      dsimp only at found still
      rw [moved] at found still
      exact ⟨last,found,still⟩

end Sequence

/-- Reads of any lengths return the file from its start, each as many bytes as it stored and
none at the end. -/
theorem reads_in_pieces {fd : Nat} {f : ProcessFd} {disk : Bool} {path c : List Byte} {pieces : List Piece}
    (bound : fd < vfsFdMax) (reader : Reader f disk path) (start : f.offset = 0)
    (fine : ∀ piece ∈ pieces, piece.Fine disk path c) :
    (readPieces fd f pieces).flatMap returned = c.take (min (total pieces) c.length) ∧
      (readPieces fd f pieces).length = pieces.length ∧ ∀ k, ∀ inside : k < pieces.length, ∃ (buffer : Nat → Byte) (count : Nat),
        (readPieces fd f pieces)[k]? = some (buffer,(count : Int)) ∧ count ≤ pieces[k].length ∧
          (∀ i, count ≤ i → buffer i = pieces[k].buffer i) ∧ (c.length ≤ total (pieces.take k) → count = 0) := by
  refine ⟨?_,?_,fun k inside => ?_⟩
  · rw [readPieces_bytes bound reader fine,start,List.drop_zero,List.take_eq_take_min]
  · clear start fine reader
    induction pieces generalizing f with
    | nil => rfl
    | cons piece rest ih => exact congrArg (· + 1) ih
  · obtain ⟨buffer,found,still⟩ := readPieces_result bound reader fine k inside
    rw [start,Nat.zero_add] at found still
    exact ⟨buffer,_,found,Nat.min_le_left _ _,still,by omega⟩

/-- Reads of these lengths while nothing else happens. -/
def piecesOf (st : Store) (lengths : List Nat) : List Piece := lengths.map fun length => ⟨st,default,fun _ => 0,length⟩

theorem piecesOf_fine {st : Store} {disk : Bool} {path c : List Byte} {lengths : List Nat}
    (present : fileContent st disk path = some c) (ready : st.disk.disk.faults = [])
    (room : (kmalloc st.heap vfsIoMax).isSome) (short : ∀ length ∈ lengths, length ≤ vfsIoMax) :
    ∀ piece ∈ piecesOf st lengths, piece.Fine disk path c := by
  intro piece member
  obtain ⟨length,requested,rfl⟩ := List.mem_map.mp member
  exact ⟨present,ready,fun _ => room,short length requested⟩

/-- A file of four bytes on the disk. -/
def letterStore : Store := (Library.run machineStep (Library.run machineStep letterMachine letterOpens) letterWrites).store

def letterReader : ProcessFd := ⟨true,backendDiskfs,vfsFRead,0,letter⟩

theorem reads_in_pieces_letter : (readPieces 0 letterReader (piecesOf letterStore [3,0,9,1])).flatMap returned = [1,2,3,4] := by
  have present : fileContent letterStore true letter = some [1,2,3,4] := by decide +kernel
  have ready : letterStore.disk.disk.faults = [] := by decide +kernel
  have room : (kmalloc letterStore.heap vfsIoMax).isSome = true := by decide +kernel
  have bound : 0 < vfsFdMax := by decide
  have reader : Reader letterReader true letter := ⟨⟨rfl,rfl,rfl⟩,rfl⟩
  exact (reads_in_pieces bound reader rfl (piecesOf_fine present ready room (by decide))).1

end LionOS.Files
