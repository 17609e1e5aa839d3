import LionOS.Processes.Calls

/-! Sixteen pipes of 1024 bytes, each used by the process that created it. -/
namespace LionOS.Channels
open LionOS.Physical LionOS.Processes

def pipeMax : Nat := 16
def pipeBuffer : Nat := 1024
def pipeBlocked : Int := -2

structure PipeState where
  used : Bool
  ownerPid : Nat
  readers : Nat
  writers : Nat
  head : Nat
  tail : Nat
  count : Nat
  data : Nat → Byte
  deriving Inhabited

abbrev Pipes := Nat → PipeState

def pipeInit (pipes : Pipes) : Pipes := fun i => if i < pipeMax then {pipes i with used := false} else pipes i

def pipeChannel (id writeSide : Nat) : Nat := 0x50495000 ||| (id * 2) ||| writeSide

/-- The pipe and the side of a handle. -/
def decode (h : Nat) : Option (Nat × Nat) :=
  if h < 2 ∨ h / 2 ≥ pipeMax then none else some (h / 2,h % 2)

def pipeCreate (pipes : Pipes) (ownerPid : Nat) : Option (Pipes × Nat × Nat) :=
  if ownerPid = 0 then none
  else match (List.range pipeMax).find? fun i => !(pipes i).used with
    | none => none
    | some i =>
      let p := {pipes i with
        used := true,ownerPid,readers := 1,writers := 1,head := 0,tail := 0,count := 0}
      some (Function.update pipes i p,i * 2,i * 2 + 1)

def popByte (p : PipeState) : PipeState × Byte := ({p with tail := (p.tail + 1) % pipeBuffer},p.data p.tail)

def popBytes (p : PipeState) : Nat → PipeState × List Byte
  | 0 => (p,[])
  | n+1 =>
    let (p,c) := popByte p
    let (p,rest) := popBytes p n
    (p,c::rest)

def pushBytes (p : PipeState) : List Byte → PipeState
  | [] => p
  | c::rest =>
    pushBytes {p with data := Function.update p.data p.head c,head := (p.head + 1) % pipeBuffer} rest

/-- `pipe_read` into a buffer that is not null: the bytes read or the result where none
are. -/
def pipeRead (s : System) (pipes : Pipes) (cpu handle capacity : Nat) :
    System × Pipes × Except Int (List Byte) :=
  match decode handle with
  | none => (s,pipes,.error (-1))
  | some (id,side) =>
    if side ≠ 0 ∨ capacity = 0 then (s,pipes,.error (-1))
    else
      let p := pipes id
      if p.used = false ∨ p.ownerPid ≠ currentPid s cpu then (s,pipes,.error (-1))
      else if p.count ≠ 0 then
        let n := min p.count capacity
        let (p,bytes) := popBytes p n
        (processWakeup s (pipeChannel id 1),
          Function.update pipes id {p with count := p.count - n},.ok bytes)
      else if p.writers = 0 then (s,pipes,.error 0)
      else
        let (s,b) := processSleepOn s cpu (pipeChannel id 0)
        (s,pipes,.error b)

/-- The loop of `pipe_write` on the bytes that are left after `done` ones. Each round
but the last transfers a byte, so `fuel` rounds are enough for fewer bytes. -/
def pipeWriteLoop (cpu id : Nat) : Nat → System → Pipes → List Byte → Nat → System × Pipes × Int
  | 0, s, pipes, _, _ => (s,pipes,-1)
  | fuel+1, s, pipes, left, done =>
    let p := pipes id
    if p.used = false ∨ p.ownerPid ≠ currentPid s cpu ∨ p.readers = 0 then
      (s,pipes,if done ≠ 0 then done else -1)
    else
      let space := pipeBuffer - p.count
      if space ≠ 0 then
        let n := min left.length space
        let p := pushBytes p (left.take n)
        let pipes := Function.update pipes id {p with count := p.count + n}
        let s := processWakeup s (pipeChannel id 0)
        if left.length ≤ n then (s,pipes,(done + n : Nat))
        else pipeWriteLoop cpu id fuel s pipes (left.drop n) (done + n)
      else
        let (s,b) := processSleepOn s cpu (pipeChannel id 1)
        (s,pipes,if b = waitBlocked then if done ≠ 0 then done else pipeBlocked else b)

/-- `pipe_write` of the bytes at a pointer that is not null. -/
def pipeWrite (s : System) (pipes : Pipes) (cpu handle : Nat) (data : List Byte) : System × Pipes × Int :=
  match decode handle with
  | none => (s,pipes,-1)
  | some (id,side) =>
    if side = 0 ∨ data = [] then (s,pipes,-1)
    else pipeWriteLoop cpu id (data.length + 1) s pipes data 0

def pipeClose (s : System) (pipes : Pipes) (cpu handle : Nat) : System × Pipes × Int :=
  match decode handle with
  | none => (s,pipes,-1)
  | some (id,side) =>
    let p := pipes id
    if p.used = false ∨ p.ownerPid ≠ currentPid s cpu then (s,pipes,-1)
    else
      let p := if side ≠ 0 then {p with writers := p.writers - 1} else {p with readers := p.readers - 1}
      let p := if p.readers = 0 ∧ p.writers = 0 then {p with used := false} else p
      (processWakeup (processWakeup s (pipeChannel id 0)) (pipeChannel id 1),Function.update pipes id p,0)

end LionOS.Channels
