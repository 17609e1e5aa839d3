import LionOS.Desktop.Clicks
import LionOS.Files.Visible

/-! What the notepad does to the files: opening, showing, minimising and closing it. -/
namespace LionOS.Desktop
open LionOS.Physical (Byte)
open LionOS.Memory LionOS.Processes LionOS.Files LionOS.Library

/-- The path as the file systems store it. -/
def notepadName : List Byte := ascii ['n','o','t','e','p','a','d','.','t','x','t']

theorem notepad_normal : pathNormalize notepadPath = some notepadName := by decide
theorem notepad_named : PathName notepadName := pathName_normal notepad_normal
theorem notepad_valid : validName notepadName = true := by decide
theorem notepad_program : programIndex notepadName = none := by decide

/-- Every file exists as before, with the same content. -/
def SameFiles (st st' : Store) : Prop := ∀ disk g, PathName g → fileContent st' disk g = fileContent st disk g

theorem SameFiles.refl (st : Store) : SameFiles st st := fun _ _ _ => rfl

theorem SameFiles.trans {st st' st'' : Store} (first : SameFiles st st') (second : SameFiles st' st'') :
    SameFiles st st'' :=
  fun disk g named => (second disk g named).trans (first disk g named)

/-- A new file finds a place. -/
def Creatable (st : Store) : Prop := Room st.ram ∨ st.disk.available = true ∧ freeEntry st.disk.entries ≠ none

/-- A save leaves the files as they are: the file has the text already, as far as its back end
holds it, or no descriptor is free for it, or there is no place for a new one. -/
def SavesNothing (s : Notes) : Prop :=
  if backendFor s.store notepadName = backendNone then ¬Creatable s.store
  else freeFd s.fds = none ∨ fileContent s.store (onDisk (backendFor s.store notepadName)) notepadName =
    some (s.text.take (fileLimit (onDisk (backendFor s.store notepadName))))

section Read
variable {s : Notes}

theorem read_store (calm : Calm s.store) (path : List Byte) :
    (s.read path).1.store.ram = s.store.ram ∧ (s.read path).1.store.disk = s.store.disk := by
  have opened : ∀ store fds slot, vfsOpen s.store s.fds path vfsFRead = (store,fds,slot) → store = s.store := by
    intro store fds slot opened
    unfold vfsOpen at opened
    split at opened
    · cases opened
      rfl
    next clean _ =>
      have same := openSlot_store s.store s.fds clean vfsFRead
      rw [opened,if_neg fun both => absurd both.2 (by decide)] at same
      exact same
  unfold Notes.read
  split
  next none =>
    rw [opened _ _ _ none]
    exact ⟨rfl,rfl⟩
  next store fds fd found =>
    obtain rfl := opened _ _ _ found
    dsimp only
    unfold vfsRead
    split
    · exact ⟨rfl,rfl⟩
    · exact readSlot_files calm.ready _ _

theorem read_same (calm : Calm s.store) (path : List Byte) :
    Calm (s.read path).1.store ∧ SameFiles s.store (s.read path).1.store := by
  obtain ⟨ram,disk⟩ := read_store calm path
  refine ⟨⟨by rw [disk]; exact calm.mounted,by rw [disk]; exact calm.ready⟩,fun kind g _ => ?_⟩
  exact fileContent_same ram disk kind g

theorem read_short {path bytes : List Byte} (read : (s.read path).2 = some (some bytes)) :
    bytes.length ≤ notepadTextMax := by
  unfold Notes.read at read
  split at read
  · cases read
  · have given := Option.some_inj.mp read
    unfold vfsRead at given
    split at given
    · cases given
    · exact readSlot_short given

end Read

section Save
variable {s : Notes}

/-- A save writes the whole text to the file, or to a new one. -/
theorem notepadSave_store (small : s.text.length ≤ notepadTextMax) : (notepadSave s).store =
    let (st,b) := if backendFor s.store notepadName = backendNone then createFile s.store notepadName
      else (s.store,backendFor s.store notepadName)
    if b = backendNone ∨ freeFd s.fds = none then st else (storeWhole st b notepadName s.text).1 := by
  have slots : ∀ st b, b ≠ backendNone → ∀ i, freeFd s.fds = some i →
      (vfsWrite st (Function.update s.fds i ⟨true,b,vfsFWrite,0,notepadName⟩) i s.text).1 =
        (storeWhole st b notepadName s.text).1 := by
    intro st b _ i free
    have usable : ¬(true = false ∨ s.text.length > vfsIoMax ∨ flagged vfsFWrite vfsFWrite = false) := by
      rw [not_or,not_or]
      exact ⟨by decide,Nat.not_lt.mpr (small.trans (by decide)),by decide⟩
    have whole : ¬flagged vfsFWrite vfsFAppend = true := by decide
    rw [vfsWrite_slot (find_range.mp free).1,Function.update_self]
    unfold writeSlot
    rw [if_neg usable,if_neg (fun both => both.1 rfl),if_neg whole]
    dsimp only
    split
    next failed => rw [failed]
    next stored => rw [stored]
  unfold notepadSave
  rcases opened : vfsOpen s.store s.fds notepadPath vfsFWrite with ⟨store,fds,slot⟩
  unfold vfsOpen openSlot at opened
  rw [notepad_normal] at opened
  dsimp only at opened
  rw [if_neg fun both => absurd both.2 (by decide)] at opened
  generalize (if backendFor s.store notepadName = backendNone then createFile s.store notepadName
    else (s.store,backendFor s.store notepadName)) = chosen at opened ⊢
  obtain ⟨st,b⟩ := chosen
  dsimp only at opened ⊢
  by_cases none : b = backendNone
  · rw [if_pos none] at opened
    cases opened
    rw [if_pos (.inl none)]
  · rw [if_neg none] at opened
    cases free : freeFd s.fds with
    | none =>
      rw [free] at opened
      cases opened
      rw [if_pos (.inr rfl)]
    | some i =>
      rw [free] at opened
      cases opened
      rw [if_neg (not_or.mpr ⟨none,Option.some_ne_none i⟩)]
      exact slots _ b none i free

theorem target_saves {st : Store} {b : Nat} (target : Target st notepadName b) (calm : Calm st)
    (small : s.text.length ≤ notepadTextMax) :
    let st' := (storeWhole st b notepadName s.text).1
    Calm st' ∧ Only st st' (onDisk b) notepadName ∧ fileContent st' (onDisk b) notepadName = some (held b s.text) := by
  have accepted : accepts b notepadName = true := by
    unfold accepts
    rw [notepad_valid,notepad_program]
    exact ite_self _
  obtain ⟨st',stored,calm',_,only,content,_⟩ := target.stored calm notepad_named accepted (small.trans (by decide))
  rw [stored]
  exact ⟨calm',only,content⟩

theorem content_absent {st : Store} {path : List Byte} (calm : Calm st) (absent : backendFor st path = backendNone)
    (disk : Bool) : fileContent st disk path = none := by
  cases content : fileContent st disk path with
  | none => rfl
  | some bytes => exact absurd absent (backendFor_present calm.ready content)

/-- What a save may have done. -/
structure Saved (s : Notes) (st' : Store) : Prop where
  calm : Calm st'
  others : ∀ disk g, PathName g → g ≠ notepadName → fileContent st' disk g = fileContent s.store disk g
  same : SameFiles s.store st' ↔ SavesNothing s

theorem save_found (calm : Calm s.store) (small : s.text.length ≤ notepadTextMax)
    (found : backendFor s.store notepadName ≠ backendNone) : Saved s (notepadSave s).store := by
  have stored := notepadSave_store small
  rw [if_neg found] at stored
  dsimp only at stored
  have condition : SavesNothing s ↔ freeFd s.fds = none ∨ fileContent s.store (onDisk (backendFor s.store notepadName))
      notepadName = some (held (backendFor s.store notepadName) s.text) := by
    unfold SavesNothing
    rw [if_neg found]
    rfl
  by_cases free : freeFd s.fds = none
  · rw [if_pos (.inr free)] at stored
    rw [stored]
    exact ⟨calm,fun _ _ _ _ => rfl,iff_of_true (.refl _) (condition.mpr (.inl free))⟩
  · rw [if_neg (not_or.mpr ⟨found,free⟩)] at stored
    obtain ⟨calm',only,content⟩ := target_saves ⟨rfl,found⟩ calm small
    rw [← stored] at calm' only content
    refine ⟨calm',fun disk g named other => only.others disk g named (.inr other),?_⟩
    rw [condition,or_iff_right free]
    constructor
    · intro same
      exact (same _ notepadName notepad_named).symm.trans content
    · intro whole disk g named
      by_cases here : disk = onDisk (backendFor s.store notepadName) ∧ g = notepadName
      · obtain ⟨rfl,rfl⟩ := here
        exact content.trans whole.symm
      · exact only.others disk g named (not_and_or.mp here)

theorem save_absent (calm : Calm s.store) (small : s.text.length ≤ notepadTextMax)
    (absent : backendFor s.store notepadName = backendNone) : Saved s (notepadSave s).store := by
  have stored := notepadSave_store small
  rw [if_pos absent] at stored
  have condition : SavesNothing s ↔ ¬Creatable s.store := by
    unfold SavesNothing
    rw [if_pos absent]
  by_cases creatable : Creatable s.store
  · -- The new file is empty or has the text; before, there was none.
    obtain ⟨st₁,b,made,empty,kind,-⟩ := createFile_whole calm notepad_named notepad_valid absent creatable
    have missing := (backendFor_absent.mp absent).1
    obtain ⟨calm₁,target,content,-⟩ := storeWhole_shown calm notepad_named (Nat.zero_le _)
      (kind.imp_right fun disk => ⟨disk,missing⟩) empty
    have only := storeWhole_only calm.mounted calm.ready notepad_named empty
    rw [made] at stored
    dsimp only at stored
    obtain ⟨calm',only',bytes,content'⟩ : Calm (notepadSave s).store ∧
        Only s.store (notepadSave s).store (onDisk b) notepadName ∧
          ∃ bytes, fileContent (notepadSave s).store (onDisk b) notepadName = some bytes := by
      rw [stored]
      split
      · exact ⟨calm₁,only,[],content⟩
      · obtain ⟨calm₂,later,whole⟩ := target_saves target calm₁ small
        exact ⟨calm₂,only.trans later,_,whole⟩
    refine ⟨calm',fun disk g named other => only'.others disk g named (.inr other),?_⟩
    rw [condition]
    refine iff_of_false (fun same => ?_) (not_not_intro creatable)
    have before := same (onDisk b) notepadName notepad_named
    rw [content',content_absent calm absent] at before
    cases before
  · obtain ⟨st₁,b,made,failed,-,same⟩ := createFile_outcome absent notepad_named.given
    obtain ⟨full,entries⟩ := not_or.mp creatable
    have untaken : ¬∃ i, Takes s.store.disk notepadName i := by
      rintro ⟨i,available,_,entry⟩
      exact entries ⟨available,by rw [entry]; exact Option.some_ne_none i⟩
    have none : b = backendNone := failed.mpr ⟨fun i takes => absurd ⟨i,takes⟩ untaken,full⟩
    obtain rfl := same untaken full
    rw [made] at stored
    dsimp only at stored
    rw [if_pos (.inl none)] at stored
    rw [stored]
    exact ⟨calm,fun _ _ _ _ => rfl,iff_of_true (.refl _) (condition.mpr creatable)⟩

theorem notepadSave_saved (calm : Calm s.store) (small : s.text.length ≤ notepadTextMax) :
    Saved s (notepadSave s).store := by
  by_cases absent : backendFor s.store notepadName = backendNone
  · exact save_absent calm small absent
  · exact save_found calm small absent

end Save

/-- What is done with the notepad: `file_manager_open_selected` for an entry of the files window, or
a call for its own window, or a key. -/
inductive ViewCall
  | openFile (selected : Option Nat)
  | show
  | minimize
  | hide
  | key (key : Int)

def ViewCall.types : ViewCall → Bool
  | .key _ => true
  | _ => false

/-- The desktop with the file that the notepad shows, which is its own until another one is opened,
and whether a key has been typed. -/
structure View where
  gui : Gui
  shown : Option (List Byte)
  typed : Bool

def View.store (v : View) : Store := v.gui.notes.store

/-- The file that `file_manager_open_selected` shows. -/
def openedFile (d : Gui) : Option (List Byte) :=
  (d.fileSelected.bind (vfsName d.notes.store)).bind fun name =>
    match (d.notes.read name).2 with
    | some (some _) => pathNormalize name
    | _ => none

def viewStep (v : View) : ViewCall → View
  | .openFile selected =>
    let d := {v.gui with fileSelected := selected}
    {v with gui := fileManagerOpenSelected d,shown := (openedFile d).or v.shown}
  | .show =>
    {v with gui := v.gui.show .notepad,shown := if v.gui.notes.loaded then v.shown else some notepadName}
  | .minimize => {v with gui := v.gui.minimize .notepad}
  | .hide => {v with gui := v.gui.hide .notepad}
  | .key key => {v with gui := {v.gui with notes := notepadInsert v.gui.notes key},typed := true}

def view (d : Gui) (shown : Option (List Byte)) : View := ⟨d,shown,false⟩

/-- As long as no key is typed the files stay as they are, and afterwards each call changes the file
that is shown and no other. -/
structure Views (d : Gui) (shown : Option (List Byte)) (calls : List ViewCall) : Prop where
  untouched : ∀ past, past <+: calls → past.any ViewCall.types = false →
    SameFiles d.notes.store (run viewStep (view d shown) past).store
  shownOnly : ∀ past call, past ++ [call] <+: calls → past.any ViewCall.types = true → ∀ disk g, PathName g →
    (run viewStep (view d shown) past).shown ≠ some g →
      fileContent (run viewStep (view d shown) (past ++ [call])).store disk g =
        fileContent (run viewStep (view d shown) past).store disk g

/-- Where the notepad is minimised or closed the save changes nothing, or keys have been typed and
the file that is shown is the one that is saved. -/
def Spares (v : View) : ViewCall → Prop
  | .minimize => SavesNothing v.gui.notes ∨ v.typed = true ∧ v.shown = some notepadName
  | .hide => SavesNothing v.gui.notes ∨ v.typed = true ∧ v.shown = some notepadName
  | _ => True

/-- What a call leaves as it was: every file as long as no key is typed, then all but the one that is
shown. -/
def Lawful (v v' : View) : Prop := ∀ disk g, PathName g → (v.typed = true → v.shown ≠ some g) →
  fileContent v'.store disk g = fileContent v.store disk g

/-- The invariant of a run: no transfer fails, and the text fits its buffer. -/
structure Viewable (s : Notes) : Prop where
  calm : Calm s.store
  small : s.text.length ≤ notepadTextMax

section Calls
variable {s : Notes} {d : Gui}

theorem notepadInit_viewable (viewable : Viewable s) :
    Viewable (notepadInit s) ∧ SameFiles s.store (notepadInit s).store := by
  obtain ⟨calm,same⟩ := read_same viewable.calm notepadPath
  refine ⟨⟨calm,?_⟩,same⟩
  change ((s.read notepadPath).2.getD none |>.getD []).length ≤ notepadTextMax
  rcases given : (s.read notepadPath).2 with _ | _ | bytes
  · exact Nat.zero_le _
  · exact Nat.zero_le _
  · exact read_short given

theorem openFile_viewable (viewable : Viewable s) (name : List Byte) :
    Viewable (s.openFile name).1 ∧ SameFiles s.store (s.openFile name).1.store := by
  obtain ⟨calm,same⟩ := read_same viewable.calm name
  have short := @read_short s name
  have text : (s.read name).1.text = s.text := by
    unfold Notes.read
    split <;> rfl
  unfold Notes.openFile
  rcases read : s.read name with ⟨after,_ | _ | bytes⟩
  · rw [read] at calm same text
    exact ⟨⟨calm,(congrArg List.length text).trans_le viewable.small⟩,same⟩
  · rw [read] at calm same text
    exact ⟨⟨calm,(congrArg List.length text).trans_le viewable.small⟩,same⟩
  · rw [read] at calm same short
    refine ⟨⟨calm,?_⟩,same⟩
    change (bytes.map sanitised).length ≤ notepadTextMax
    rw [List.length_map]
    exact short rfl

theorem notepadInsert_viewable (viewable : Viewable s) (key : Int) :
    Viewable (notepadInsert s key) ∧ (notepadInsert s key).store = s.store := by
  have small := viewable.small
  unfold notepadInsert
  split
  · split
    · refine ⟨⟨viewable.calm,?_⟩,rfl⟩
      dsimp only
      rw [List.length_append,List.length_take,List.length_drop]
      omega
    · exact ⟨viewable,rfl⟩
  split
  · exact ⟨viewable,rfl⟩
  dsimp only
  split
  · exact ⟨viewable,rfl⟩
  next room =>
    refine ⟨⟨viewable.calm,?_⟩,rfl⟩
    dsimp only
    rw [List.length_append,List.length_append,List.length_take,List.length_drop,List.length_singleton]
    omega

theorem notepadSave_viewable (viewable : Viewable s) : Viewable (notepadSave s) := by
  have saved := notepadSave_saved viewable.calm viewable.small
  refine ⟨saved.calm,?_⟩
  have text : (notepadSave s).text = s.text := by
    unfold notepadSave
    split <;> rfl
  rw [text]
  exact viewable.small

theorem show_viewable (viewable : Viewable d.notes) :
    Viewable (d.show .notepad).notes ∧ SameFiles d.notes.store (d.show .notepad).notes.store := by
  have focused : Viewable {d.notes with focus := true} := ⟨viewable.calm,viewable.small⟩
  unfold Gui.show
  dsimp only
  split
  · obtain ⟨⟨calm,small⟩,same⟩ := notepadInit_viewable focused
    exact ⟨⟨calm,small⟩,same⟩
  · exact ⟨focused,.refl _⟩

theorem openSelected_viewable (viewable : Viewable d.notes) :
    Viewable (fileManagerOpenSelected d).notes ∧ SameFiles d.notes.store (fileManagerOpenSelected d).notes.store := by
  unfold fileManagerOpenSelected
  split
  · exact ⟨viewable,.refl _⟩
  next name _ =>
    obtain ⟨opened,same⟩ := openFile_viewable viewable name
    dsimp only
    split
    · obtain ⟨shown,later⟩ := @show_viewable {d with notes := (d.notes.openFile name).1} opened
      exact ⟨shown,same.trans later⟩
    · exact ⟨opened,same⟩

end Calls

section Steps
variable {v : View}

/-- Where a call saves the text. -/
def ViewCall.saves : ViewCall → Bool
  | .minimize => true
  | .hide => true
  | _ => false

theorem viewStep_saves (call : ViewCall) (saves : call.saves = true) :
    (viewStep v call).store = (notepadSave v.gui.notes).store ∧ (viewStep v call).gui.notes.text = (notepadSave v.gui.notes).text := by
  cases call with
  | minimize => exact ⟨rfl,rfl⟩
  | hide => exact ⟨rfl,rfl⟩
  | openFile selected => cases saves
  | «show» => cases saves
  | key key => cases saves

theorem viewStep_reads (viewable : Viewable v.gui.notes) (call : ViewCall) (reads : call.saves = false) :
    Viewable (viewStep v call).gui.notes ∧ SameFiles v.store (viewStep v call).store := by
  cases call with
  | minimize => cases reads
  | hide => cases reads
  | openFile selected => exact @openSelected_viewable {v.gui with fileSelected := selected} viewable
  | «show» => exact show_viewable viewable
  | key key =>
    obtain ⟨typed,same⟩ := notepadInsert_viewable viewable key
    refine ⟨typed,?_⟩
    change SameFiles v.gui.notes.store (notepadInsert v.gui.notes key).store
    rw [same]
    exact .refl _

theorem viewStep_viewable (viewable : Viewable v.gui.notes) (call : ViewCall) :
    Viewable (viewStep v call).gui.notes := by
  cases saves : call.saves with
  | true =>
    obtain ⟨store,text⟩ := @viewStep_saves v call saves
    obtain ⟨calm,small⟩ := notepadSave_viewable viewable
    exact ⟨(congrArg Calm store).mpr calm,(congrArg List.length text).trans_le small⟩
  | false => exact (viewStep_reads viewable call saves).1

theorem spares_saves {call : ViewCall} : Spares v call ↔
    (call.saves = true → SavesNothing v.gui.notes ∨ v.typed = true ∧ v.shown = some notepadName) := by
  cases call <;> simp [Spares,ViewCall.saves]

theorem lawful_iff (viewable : Viewable v.gui.notes) (call : ViewCall) :
    Lawful v (viewStep v call) ↔ Spares v call := by
  rw [spares_saves]
  cases saves : call.saves with
  | false =>
    refine iff_of_true (fun disk g named _ => ?_) (fun both => by cases both)
    exact (viewStep_reads viewable call saves).2 disk g named
  | true =>
    have saved := notepadSave_saved viewable.calm viewable.small
    unfold Lawful
    rw [(@viewStep_saves v call saves).1]
    constructor
    · intro lawful _
      by_cases own : v.typed = true ∧ v.shown = some notepadName
      · exact .inr own
      · refine .inl (saved.same.mp fun disk g named => ?_)
        by_cases here : g = notepadName
        · subst here
          exact lawful disk _ named fun typed shown => own ⟨typed,shown⟩
        · exact saved.others disk g named here
    · intro spares disk g named other
      rcases spares rfl with nothing | ⟨typed,shown⟩
      · exact saved.same.mpr nothing disk g named
      · refine saved.others disk g named fun here => other typed ?_
        rw [shown,here]

theorem viewStep_typed (call : ViewCall) : (viewStep v call).typed = (v.typed || call.types) := by
  cases call with
  | key key => exact (Bool.or_true _).symm
  | openFile selected => exact (Bool.or_false _).symm
  | «show» => exact (Bool.or_false _).symm
  | minimize => exact (Bool.or_false _).symm
  | hide => exact (Bool.or_false _).symm

theorem run_typed (calls : List ViewCall) : (run viewStep v calls).typed = (v.typed || calls.any ViewCall.types) := by
  induction calls generalizing v with
  | nil => exact (Bool.or_false _).symm
  | cons call rest ih => rw [run_cons,ih,viewStep_typed,List.any_cons,Bool.or_assoc]

end Steps

section Runs
variable {d : Gui} {shown : Option (List Byte)} {calls : List ViewCall}

theorem views_lawful (viewable : Viewable d.notes) :
    Views d shown calls ↔ Meets viewStep (fun v call => Lawful v (viewStep v call)) (view d shown) calls := by
  have typed : ∀ past, (run viewStep (view d shown) past).typed = past.any ViewCall.types := fun past => run_typed past
  have next : ∀ past call, run viewStep (view d shown) (past ++ [call]) = viewStep (run viewStep (view d shown) past) call :=
    fun past call => run_append viewStep (view d shown) past [call]
  rw [meets_prefix_iff]
  constructor
  · intro views past call early disk g named other
    rw [typed] at other
    cases some : past.any ViewCall.types with
    | true =>
      rw [← next]
      exact views.shownOnly past call early some disk g named (other some)
    | false =>
      cases types : call.types with
      | true =>
        have reads : call.saves = false := by
          cases call with
          | key key => rfl
          | openFile selected => cases types
          | «show» => cases types
          | minimize => cases types
          | hide => cases types
        have keeps : Viewable (run viewStep (view d shown) past).gui.notes :=
          @run_invariant _ _ viewStep (fun v => Viewable v.gui.notes) (fun v call kept => viewStep_viewable kept call)
            _ past viewable
        exact (viewStep_reads keeps call reads).2 disk g named
      | false =>
        have none : (past ++ [call]).any ViewCall.types = false := by simp [some,types]
        have before := views.untouched past ((List.prefix_append past [call]).trans early) some disk g named
        have after := views.untouched _ early none disk g named
        rw [next] at after
        exact after.trans before.symm
  · intro lawful
    refine ⟨fun past => ?_,fun past call early some disk g named other => ?_⟩
    · induction past using List.reverseRecOn with
      | nil => exact fun _ _ => .refl _
      | append_singleton past call ih =>
        intro early none
        obtain ⟨before,-⟩ : past.any ViewCall.types = false ∧ call.types = false := by
          simpa [List.any_append] using none
        refine (ih ((List.prefix_append past [call]).trans early) before).trans fun disk g named => ?_
        rw [next]
        exact lawful past call early disk g named fun some => by
          rw [typed,before] at some
          cases some
    · rw [next]
      exact lawful past call early disk g named fun _ => other

end Runs

/-- Viewing leaves the files alone just if every save of the run spares them. -/
theorem views_iff (d : Gui) (shown : Option (List Byte)) (calls : List ViewCall) (viewable : Viewable d.notes) :
    Views d shown calls ↔ Meets viewStep Spares (view d shown) calls := by
  rw [views_lawful viewable]
  exact @meets_congr _ _ viewStep _ _ (fun v => Viewable v.gui.notes) (fun v call kept => viewStep_viewable kept call)
    (fun v call kept => lawful_iff kept call) _ viewable calls

theorem views_iff_letter : Views (idleGui bareStore noFds) none [.show,.key 97,.hide] ↔
    Meets viewStep Spares (view (idleGui bareStore noFds) none) [.show,.key 97,.hide] :=
  views_iff _ _ _ ⟨bareStore_calm,Nat.zero_le _⟩

/-- Without its file, the notepad makes one when it is closed. -/
theorem closing_creates : ¬∀ (d : Gui) (shown : Option (List Byte)) (calls : List ViewCall),
    Viewable d.notes → Views d shown calls := by
  intro all
  have views := all (idleGui bareStore noFds) none [.show,.hide] ⟨bareStore_calm,Nat.zero_le _⟩
  have same := views.untouched [.show,.hide] (List.prefix_refl _) rfl false notepadName notepad_named
  revert same
  decide

end LionOS.Desktop
