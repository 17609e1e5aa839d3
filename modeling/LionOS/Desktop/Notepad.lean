import LionOS.Files.Opens

/-! The text of the notepad window: what is loaded into it, what is typed and where it is saved. -/
namespace LionOS.Desktop
open LionOS.Physical (Byte)
open LionOS.Processes LionOS.Files

def notepadTextMax : Nat := 4095

/-- "/notepad.txt" -/
def notepadPath : List Byte := ascii ['/','n','o','t','e','p','a','d','.','t','x','t']

/-- The variables `notepad_*`, with the files and the descriptors of the kernel. -/
structure Notes where
  store : Store
  fds : FdTable
  text : List Byte
  cursor : Nat
  focus : Bool
  loaded : Bool

/-- `vfs_open` for reading, `vfs_read` and `vfs_close`: none where the file is not opened, and
otherwise what the read returns. -/
def Notes.read (s : Notes) (path : List Byte) : Notes × Option (Option (List Byte)) :=
  match vfsOpen s.store s.fds path vfsFRead with
  | (store,fds,none) => ({s with store,fds},none)
  | (store,fds,some fd) =>
    let (store,fds,bytes) := vfsRead store fds fd notepadTextMax
    ({s with store,fds := (vfsClose fds fd).1},some bytes)

def notepadInit (s : Notes) : Notes :=
  let (s,bytes) := s.read notepadPath
  let text := (bytes.getD none).getD []
  {s with text,cursor := text.length,focus := true}

def notepadInsert (s : Notes) (key : Int) : Notes :=
  if key = 8 ∨ key = 127 then
    if s.cursor ≠ 0 then
      {s with text := s.text.take (s.cursor - 1) ++ s.text.drop s.cursor,cursor := s.cursor - 1}
    else s
  else if key < 32 ∧ key ≠ 10 ∧ key ≠ 13 then s
  else
    let key := if key = 13 then 10 else key
    if s.text.length ≥ notepadTextMax then s
    else {s with text := s.text.take s.cursor ++ [BitVec.ofInt 8 key] ++ s.text.drop s.cursor,cursor := s.cursor + 1}

def notepadSave (s : Notes) : Notes :=
  match vfsOpen s.store s.fds notepadPath vfsFWrite with
  | (store,fds,none) => {s with store,fds}
  | (store,fds,some fd) =>
    let (store,fds,_) := vfsWrite store fds fd s.text
    {s with store,fds := (vfsClose fds fd).1}

/-- The characters of a file as the notepad shows them. -/
def sanitised (c : Byte) : Byte :=
  if c < 32 ∧ c ≠ 10 ∧ c ≠ 13 ∧ c ≠ 9 then 0x2E else if c = 9 then 0x20 else c

/-- The file of `file_manager_open_selected` in the text, before the window is shown; the flag tells
that it has been read. -/
def Notes.openFile (s : Notes) (name : List Byte) : Notes × Bool :=
  match s.read name with
  | (s,none) => (s,false)
  | (s,some none) => (s,false)
  | (s,some (some bytes)) =>
    let text := bytes.map sanitised
    ({s with text,cursor := text.length,loaded := true},true)

end LionOS.Desktop
