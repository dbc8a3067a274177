import Mathlib.Data.List.DropRight
import Mathlib.Data.List.Forall2
import SampLogCore.Config.Gamemodes
import SampLogCore.Debug.LoadedLookup
import SampLogCore.Debug.PluginLogger
import SampLogCore.Rotation.SizeRotation

/-!
# The debug data of the server's scripts

The constructor of `AmxDebugManager` loads the debug data of the gamemodes that `server.cfg` names
and of every AMX file below `filterscripts`. It keeps each with the first bytes of its file, and
`RegisterAmx` goes through them for an AMX that begins with the same bytes.

* `refines_tables`: over the pointers into the loaded blocks the manager answers what it answers
  over tables, whatever is registered and erased.
* `answers_as_compiled`: a script whose file the compiler has written with tables `T` is answered
  from `T` as soon as it is registered.
-/

namespace SampLogCore.Debug.DebugData

open SampLogCore.Lib.Records SampLogCore.Lib.Bytes SampLogCore.Config.Yaml
  SampLogCore.Config.SampConfigReader SampLogCore.Config.Gamemodes SampLogCore.Debug.LoadInfo
  SampLogCore.Debug.DebugFile SampLogCore.Debug.LoadedLookup
open SampLogCore.Rotation.LogDirectory (Name Path)
open SampLogCore.Rotation.SizeRotation (Tinydir)
open SampLogCore.Debug.AmxDebugManager (Cell AMX_HEADER AMX_DBG AmxFuncCallInfo)
open SampLogCore.Debug.PluginLogger (Call)

/-! ### The code -/

/-- What `tinydir` lists of a directory, one entry after the other: the files, with their bytes if
they can be opened, and the directories. -/
inductive Listing
  | nil
  | file (name : Name) (bytes : Option (List UInt8)) (rest : Listing)
  | dir (name : Name) (entries rest : Listing)

/-- The files of the server: what the paths can be opened as, and what is in `filterscripts`. -/
structure Server where
  fopen : Path → Option (List UInt8)
  filterscripts : Listing

/-- `_availableDebugInfo`. -/
abbrev Available := List (AMX_HEADER × Image)

/-- `AmxDebugManager::InitDebugData`: the result and `_availableDebugInfo`. When data is loaded from
a file that is shorter than an `AMX_HEADER`, a part of `hdr` has never been set. -/
def InitDebugData (amx_file : Option (List UInt8)) (available : Available) :
    Option (Bool × Available) :=
  match amx_file with
  | none => some (false, available)
  | some fp =>
    match dbg_LoadInfo fp with
    | none => none
    | some (.error _) => some (false, available)
    | some (.ok amxdbg) =>
      if fp.length < sizeof_AMX_HEADER then none
      else some (true, available ++ [(fp.take sizeof_AMX_HEADER, amxdbg)])

def amxExtension : List Char := ['a', 'm', 'x']

/-- `AmxDebugManager::InitDebugDataDir`. A directory can be opened like a file, but not read. -/
def InitDebugDataDir (td : Tinydir) : Listing → Available → Option Available
  | .nil, available => some available
  | .file name bytes rest, available =>
    if td.extension name = amxExtension then
      (InitDebugData bytes available).bind fun r => InitDebugDataDir td rest r.2
    else InitDebugDataDir td rest available
  | .dir name entries rest, available =>
    if name.head? ≠ some '.' then
      (InitDebugDataDir td entries available).bind fun available =>
        InitDebugDataDir td rest available
    else if td.extension name = amxExtension then
      (InitDebugData (some []) available).bind fun r => InitDebugDataDir td rest r.2
    else InitDebugDataDir td rest available

/-- `"gamemodes/" + g + ".amx"`. -/
def amx_filepath (g : Name) : Path :=
  ['g', 'a', 'm', 'e', 'm', 'o', 'd', 'e', 's', '/'] ++ g ++ '.' :: amxExtension

/-- The loop over the gamemodes. -/
def InitGamemodes (server : Server) : List Name → Available → Option Available
  | [], available => some available
  | g :: gamemodes, available =>
    (InitDebugData (server.fopen (amx_filepath g)) available).bind fun r =>
      InitGamemodes server gamemodes r.2

/-- What `AmxDebugManager::AmxDebugManager` makes available, with the settings of `server.cfg`. -/
def construct (td : Tinydir) (server : Server) (DisableDebugInfo : Bool) (settings : Settings)
    (rounds : ℕ) : Option Available :=
  if DisableDebugInfo then some []
  else
    match GetGamemodeList settings rounds with
    | some (.ok (true, gamemodes)) =>
      (InitGamemodes server gamemodes []).bind fun available =>
        InitDebugDataDir td server.filterscripts available
    | some (.ok (false, _)) => some []
    | _ => none

variable {P : Type*}

/-- The members of the manager. `_availableDebugInfo` is an `unordered_map`, and it is in the order
in which a loop goes through it. -/
structure Manager (P : Type*) where
  disableDebugInfo : Bool
  availableDebugInfo : Available
  amxDebugMap : P → Option Image

section Operations

variable [DecidableEq P]

/-- `AmxDebugManager::RegisterAmx`, for an AMX with this header. -/
def Manager.RegisterAmx (m : Manager P) (amx : P) (base : AMX_HEADER) : Manager P :=
  if m.disableDebugInfo then m
  else if (m.amxDebugMap amx).isSome then m
  else
    match m.availableDebugInfo.find? fun d => d.1 = base with
    | some d => { m with amxDebugMap := Function.update m.amxDebugMap amx (some d.2) }
    | none => m

/-- `AmxDebugManager::EraseAmx`. -/
def Manager.EraseAmx (m : Manager P) (amx : P) : Manager P :=
  if m.disableDebugInfo then m
  else { m with amxDebugMap := Function.update m.amxDebugMap amx none }

/-- The manager after one more call. -/
def run (m : Manager P) : Call P → Manager P
  | .RegisterAmx amx base => m.RegisterAmx amx base
  | .EraseAmx amx => m.EraseAmx amx

/-- The manager after a history of calls, from its constructor on. -/
def history (disableDebugInfo : Bool) (available : Available) (calls : List (Call P)) : Manager P :=
  calls.foldl run ⟨disableDebugInfo, available, fun _ => none⟩

end Operations

/-- `AmxDebugManager::GetFunctionCall`: the result and `dest`. -/
def GetFunctionCall (m : Manager P) (amx : P) (address : Cell) (dest : AmxFuncCallInfo) :
    Option (Bool × AmxFuncCallInfo) :=
  if m.disableDebugInfo then some (false, dest)
  else
    match m.amxDebugMap amx with
    | none => some (false, dest)
    | some amx_dbg => amx_dbg.lookup address dest

/-! ### What is loaded -/

/-- The files that `InitDebugDataDir` loads from. -/
def amxFiles (td : Tinydir) : Listing → List (Option (List UInt8))
  | .nil => []
  | .file name bytes rest =>
    if td.extension name = amxExtension then bytes :: amxFiles td rest else amxFiles td rest
  | .dir name entries rest =>
    if name.head? ≠ some '.' then amxFiles td entries ++ amxFiles td rest
    else if td.extension name = amxExtension then some [] :: amxFiles td rest
    else amxFiles td rest

/-- The files that the constructor loads from. -/
def files (td : Tinydir) (server : Server) (gamemodes : List Name) : List (Option (List UInt8)) :=
  gamemodes.map (fun g => server.fopen (amx_filepath g)) ++ amxFiles td server.filterscripts

/-- One file after the other. -/
def loadAll : List (Option (List UInt8)) → Available → Option Available
  | [], available => some available
  | file :: files, available => (InitDebugData file available).bind fun r => loadAll files r.2

section Loading

variable {td : Tinydir} {server : Server} {available after : Available} {gamemodes : List Name}

theorem loadAll_append (fs gs : List (Option (List UInt8))) (available : Available) :
    loadAll (fs ++ gs) available = (loadAll fs available).bind fun a => loadAll gs a := by
  induction fs generalizing available with
  | nil => rfl
  | cons f fs ih =>
    rw [List.cons_append, loadAll, loadAll, Option.bind_assoc]
    simp only [ih]

/-- Going through a directory is loading its files. -/
theorem InitDebugDataDir_eq (l : Listing) (available : Available) :
    InitDebugDataDir td l available = loadAll (amxFiles td l) available := by
  induction l generalizing available with
  | nil => rfl
  | file name bytes rest ih =>
    rw [InitDebugDataDir, amxFiles]
    split_ifs with h
    · simp only [ih, loadAll]
    · exact ih available
  | dir name entries rest ihe ih =>
    rw [InitDebugDataDir, amxFiles]
    split_ifs with hdot h
    · simp only [ihe, ih, loadAll_append]
    · simp only [ih, loadAll]
    · exact ih available

theorem InitGamemodes_eq (gamemodes : List Name) (available : Available) :
    InitGamemodes server gamemodes available =
      loadAll (gamemodes.map fun g => server.fopen (amx_filepath g)) available := by
  induction gamemodes generalizing available with
  | nil => rfl
  | cons g gamemodes ih =>
    rw [InitGamemodes, List.map_cons, loadAll]
    simp only [ih]

theorem InitDebugData_eq_some {file : Option (List UInt8)} {found : Bool}
    (h : InitDebugData file available = some (found, after)) :
    (after = available ∧ ∀ fp img, file = some fp → dbg_LoadInfo fp ≠ some (.ok img)) ∨
      ∃ fp img, file = some fp ∧ dbg_LoadInfo fp = some (.ok img) ∧
        after = available ++ [(fp.take sizeof_AMX_HEADER, img)] := by
  rcases file with _ | fp
  · rw [InitDebugData, Option.some.injEq, Prod.mk.injEq] at h
    exact .inl ⟨h.2.symm, fun fp img hfp => absurd hfp (by simp)⟩
  · rw [InitDebugData] at h
    rcases hload : dbg_LoadInfo fp with _ | e | img
    · simp [hload] at h
    · simp only [hload, Option.some.injEq, Prod.mk.injEq] at h
      refine .inl ⟨h.2.symm, fun fp' img hfp => ?_⟩
      obtain rfl := Option.some.inj hfp
      simp [hload]
    · simp only [hload] at h
      split_ifs at h with hshort
      simp only [Option.some.injEq, Prod.mk.injEq] at h
      exact .inr ⟨fp, img, rfl, hload, h.2.symm⟩

/-- What is available is what loads, each with the header of its file. -/
theorem mem_loadAll {fs : List (Option (List UInt8))} (h : loadAll fs available = some after)
    {d : AMX_HEADER × Image} : d ∈ after ↔ d ∈ available ∨ ∃ fp, some fp ∈ fs ∧
      d.1 = fp.take sizeof_AMX_HEADER ∧ dbg_LoadInfo fp = some (.ok d.2) := by
  induction fs generalizing available with
  | nil => simp [Option.some.inj h.symm]
  | cons file fs ih =>
    rw [loadAll, Option.bind_eq_some_iff] at h
    obtain ⟨⟨found, between⟩, hfile, hrest⟩ := h
    rw [ih hrest]
    rcases InitDebugData_eq_some hfile with ⟨rfl, hnot⟩ | ⟨fp, img, rfl, hload, rfl⟩
    · refine or_congr_right ⟨?_, ?_⟩
      · rintro ⟨fp, hmem, h⟩
        exact ⟨fp, List.mem_cons_of_mem _ hmem, h⟩
      · rintro ⟨fp, hmem, hhdr, hload⟩
        rcases List.mem_cons.mp hmem with heq | hmem
        · exact absurd hload (hnot fp d.2 heq.symm)
        · exact ⟨fp, hmem, hhdr, hload⟩
    · rw [List.mem_append, List.mem_singleton, or_assoc]
      refine or_congr_right ⟨?_, ?_⟩
      · rintro (rfl | ⟨fp', hmem, h⟩)
        · exact ⟨fp, List.mem_cons_self, rfl, hload⟩
        · exact ⟨fp', List.mem_cons_of_mem _ hmem, h⟩
      · rintro ⟨fp', hmem, hhdr, hload'⟩
        rcases List.mem_cons.mp hmem with heq | hmem
        · obtain rfl := Option.some.inj heq
          rw [hload] at hload'
          exact .inl (Prod.ext hhdr (Except.ok.inj (Option.some.inj hload')).symm)
        · exact .inr ⟨fp', hmem, hhdr, hload'⟩

end Loading

/-! ### The manager over tables -/

/-- The header is the same, and the table what the block answers. -/
def SameEntry (d : AMX_HEADER × Image) (e : AMX_HEADER × AMX_DBG) : Prop :=
  d.1 = e.1 ∧ Answers d.2 e.2

/-- The manager over blocks is in the state of the manager over tables. -/
structure Refines (m : Manager P) (t : AmxDebugManager.Manager P) : Prop where
  disabled : m.disableDebugInfo = t.disableDebugInfo
  available : List.Forall₂ SameEntry m.availableDebugInfo t.availableDebugInfo
  registered : ∀ amx, Option.Rel Answers (m.amxDebugMap amx) (t.amxDebugMap amx)

theorem rel_cases {α β : Type*} {r : α → β → Prop} {a : Option α} {b : Option β}
    (h : Option.Rel r a b) : (a = none ∧ b = none) ∨ ∃ x y, a = some x ∧ b = some y ∧ r x y := by
  rcases h with hxy | _
  · exact .inr ⟨_, _, rfl, rfl, hxy⟩
  · exact .inl ⟨rfl, rfl⟩

theorem find?_sameEntry {ds : Available} {es : List (AMX_HEADER × AMX_DBG)}
    (h : List.Forall₂ SameEntry ds es) (base : AMX_HEADER) :
    Option.Rel SameEntry (ds.find? fun d => d.1 = base) (es.find? fun e => e.1 = base) := by
  induction h with
  | nil => exact .none
  | @cons d e ds es hde _ ih =>
    by_cases hbase : e.1 = base
    · rw [List.find?_cons_of_pos (by simpa [hde.1] using hbase),
        List.find?_cons_of_pos (by simpa using hbase)]
      exact .some hde
    · rw [List.find?_cons_of_neg (by simpa [hde.1] using hbase),
        List.find?_cons_of_neg (by simpa using hbase)]
      exact ih

section Runs

variable [DecidableEq P] {m : Manager P} {t : AmxDebugManager.Manager P}

theorem Refines.update (h : Refines m t) (amx : P) {img : Option Image} {table : Option AMX_DBG}
    (hrel : Option.Rel Answers img table) :
    Refines { m with amxDebugMap := Function.update m.amxDebugMap amx img }
      { t with amxDebugMap := Function.update t.amxDebugMap amx table } where
  disabled := h.disabled
  available := h.available
  registered a := by
    show Option.Rel Answers (Function.update m.amxDebugMap amx img a)
      (Function.update t.amxDebugMap amx table a)
    by_cases ha : a = amx
    · rw [ha, Function.update_self, Function.update_self]
      exact hrel
    · rw [Function.update_of_ne ha, Function.update_of_ne ha]
      exact h.registered a

theorem Refines.registerAmx (h : Refines m t) (amx : P) (base : AMX_HEADER) :
    Refines (m.RegisterAmx amx base) (t.RegisterAmx amx base) := by
  unfold Manager.RegisterAmx AmxDebugManager.Manager.RegisterAmx
  by_cases hdisable : t.disableDebugInfo = true
  · rw [if_pos (h.disabled.trans hdisable), if_pos hdisable]
    exact h
  · rw [if_neg (h.disabled ▸ hdisable), if_neg hdisable]
    rcases rel_cases (h.registered amx) with ⟨hm, ht⟩ | ⟨img, table, hm, ht, -⟩
    · simp only [hm, ht, Option.isSome_none, Bool.false_eq_true, if_false]
      rcases rel_cases (find?_sameEntry h.available base) with ⟨hd, he⟩ | ⟨d, e, hd, he, hde⟩
      · rw [hd, he]
        exact h
      · rw [hd, he]
        exact h.update amx (.some hde.2)
    · simp only [hm, ht, Option.isSome_some, if_true]
      exact h

theorem Refines.eraseAmx (h : Refines m t) (amx : P) :
    Refines (m.EraseAmx amx) (t.EraseAmx amx) := by
  unfold Manager.EraseAmx AmxDebugManager.Manager.EraseAmx
  by_cases hdisable : t.disableDebugInfo = true
  · rw [if_pos (h.disabled.trans hdisable), if_pos hdisable]
    exact h
  · rw [if_neg (h.disabled ▸ hdisable), if_neg hdisable]
    exact h.update amx .none

/-- One call keeps the two managers in the same state. -/
theorem Refines.run (h : Refines m t) : ∀ c : Call P, Refines (run m c) (Call.run t c)
  | .RegisterAmx amx base => h.registerAmx amx base
  | .EraseAmx amx => h.eraseAmx amx

theorem Refines.foldl (h : Refines m t) (calls : List (Call P)) :
    Refines (calls.foldl DebugData.run m) (calls.foldl Call.run t) := by
  induction calls generalizing m t with
  | nil => exact h
  | cons c calls ih => exact ih (h.run c)

omit [DecidableEq P] in
theorem Refines.getFunctionCall (h : Refines m t) (amx : P) (address : Cell)
    (dest : AmxFuncCallInfo) :
    GetFunctionCall m amx address dest = AmxDebugManager.GetFunctionCall t amx address dest := by
  rw [GetFunctionCall, AmxDebugManager.GetFunctionCall, h.disabled]
  split_ifs
  · rfl
  · rcases rel_cases (h.registered amx) with ⟨hm, ht⟩ | ⟨img, table, hm, ht, hrep⟩
    · rw [hm, ht]
    · rw [hm, ht]
      exact hrep address dest

end Runs

/-! ### Which file an AMX is answered from -/

/-- What is available for a header. -/
def table (available : Available) (base : AMX_HEADER) : Option Image :=
  (available.find? fun d => d.1 = base).map Prod.snd

section Binding

variable [DecidableEq P]

def erases (amx : P) : Call P → Bool
  | .EraseAmx a => a = amx
  | .RegisterAmx _ _ => false

/-- The header with which the call registers `amx`, if something is available for it. -/
def asksFor (available : Available) (amx : P) : Call P → Option AMX_HEADER
  | .RegisterAmx a base => if a = amx ∧ (table available base).isSome then some base else none
  | .EraseAmx _ => none

/-- The header of the first registration of `amx` since it was last erased for which something is
available. -/
def binding (available : Available) (amx : P) (calls : List (Call P)) : Option AMX_HEADER :=
  (calls.rtakeWhile fun c => !erases amx c).findSome? (asksFor available amx)

variable {available : Available} {amx : P}

theorem exists_table_of_binding {calls : List (Call P)} {base : AMX_HEADER}
    (h : binding available amx calls = some base) : ∃ img, table available base = some img := by
  obtain ⟨c, -, hc⟩ := List.exists_of_findSome?_eq_some h
  rcases c with ⟨a, b⟩ | a
  · simp only [asksFor] at hc
    split_ifs at hc with hif
    obtain rfl := Option.some.inj hc
    exact Option.isSome_iff_exists.mp hif.2
  · simp [asksFor] at hc

theorem binding_concat (available : Available) (amx : P) (calls : List (Call P)) (c : Call P) :
    binding available amx (calls ++ [c]) = if erases amx c then none
      else (binding available amx calls).or (asksFor available amx c) := by
  rw [binding, List.rtakeWhile_concat]
  cases erases amx c with
  | true => rfl
  | false =>
    simp only [Bool.not_false, if_true, List.findSome?_append, Bool.false_eq_true, if_false]
    rw [← binding, List.findSome?_cons, List.findSome?_nil]
    cases asksFor available amx c with
    | none => rfl
    | some base => rfl

theorem history_concat (disable : Bool) (available : Available) (calls : List (Call P))
    (c : Call P) :
    history disable available (calls ++ [c]) = run (history disable available calls) c := by
  rw [history, List.foldl_append]
  rfl

theorem run_members (m : Manager P) (c : Call P) :
    (run m c).disableDebugInfo = m.disableDebugInfo ∧
      (run m c).availableDebugInfo = m.availableDebugInfo := by
  rcases c with ⟨amx, base⟩ | amx
  · rw [run, Manager.RegisterAmx]
    split_ifs
    · exact ⟨rfl, rfl⟩
    · exact ⟨rfl, rfl⟩
    · split
      · exact ⟨rfl, rfl⟩
      · exact ⟨rfl, rfl⟩
  · rw [run, Manager.EraseAmx]
    split_ifs
    · exact ⟨rfl, rfl⟩
    · exact ⟨rfl, rfl⟩

theorem history_members (disable : Bool) (available : Available) (calls : List (Call P)) :
    (history disable available calls).disableDebugInfo = disable ∧
      (history disable available calls).availableDebugInfo = available := by
  induction calls using List.reverseRecOn with
  | nil => exact ⟨rfl, rfl⟩
  | append_singleton calls c ih =>
    rw [history_concat, (run_members _ c).1, (run_members _ c).2]
    exact ih

theorem registerAmx_apply (m : Manager P) (hdisable : m.disableDebugInfo = false) (a amx : P)
    (base : AMX_HEADER) : (m.RegisterAmx a base).amxDebugMap amx =
      (m.amxDebugMap amx).or (if a = amx then table m.availableDebugInfo base else none) := by
  rw [Manager.RegisterAmx, hdisable, if_neg Bool.false_ne_true, table]
  by_cases ha : a = amx
  · subst ha
    rw [if_pos rfl]
    cases hm : m.amxDebugMap a with
    | some img => simp [hm]
    | none =>
      cases hd : m.availableDebugInfo.find? fun d => d.1 = base with
      | none => simp [hm]
      | some d => simp
  · rw [if_neg ha, Option.or_none]
    split_ifs
    · rfl
    · split
      · exact Function.update_of_ne (Ne.symm ha) _ _
      · rfl

/-- **After any history an AMX is bound to what is available for its `binding`.** -/
theorem amxDebugMap_history (available : Available) (amx : P) (calls : List (Call P)) :
    (history false available calls).amxDebugMap amx =
      (binding available amx calls).bind (table available) := by
  induction calls using List.reverseRecOn with
  | nil => simp [history, binding]
  | append_singleton calls c ih =>
    obtain ⟨hdisable, havailable⟩ := history_members (P := P) false available calls
    rw [history_concat]
    rcases c with ⟨a, base⟩ | a
    · rw [run, registerAmx_apply _ hdisable, ih, havailable, binding_concat]
      cases hb : binding available amx calls with
      | some b =>
        obtain ⟨img, himg⟩ := exists_table_of_binding hb
        simp [erases, himg]
      | none =>
        by_cases ha : a = amx
        · cases ht : table available base with
          | none => simp [erases, asksFor, ht]
          | some img => simp [erases, asksFor, ha, ht]
        · simp [erases, asksFor, ha]
    · rw [run, Manager.EraseAmx, hdisable, if_neg Bool.false_ne_true, binding_concat]
      show Function.update (history false available calls).amxDebugMap a none amx = _
      by_cases ha : a = amx
      · rw [ha, Function.update_self]
        simp [erases]
      · rw [Function.update_of_ne (Ne.symm ha), ih]
        simp [erases, asksFor, ha]

end Binding

/-! ### From the files to the answers -/

section Files

variable {td : Tinydir} {server : Server} {disable : Bool} {settings : Settings} {rounds : ℕ}
  {available order : Available}

theorem construct_eq {gamemodes : List (List Char)}
    (h : GetGamemodeList settings rounds = some (.ok (true, gamemodes))) :
    construct td server false settings rounds = loadAll (files td server gamemodes) [] := by
  rw [construct, if_neg Bool.false_ne_true, h, files, loadAll_append]
  simp only [InitGamemodes_eq, InitDebugDataDir_eq]

/-- The files that the constructor loads from: none while debug information is disabled or without a
gamemode. -/
def loadedFiles (td : Tinydir) (server : Server) (disable found : Bool) (gamemodes : List Name) :
    List (Option (List UInt8)) :=
  if disable || !found then [] else files td server gamemodes

theorem construct_loadedFiles {found : Bool} {gamemodes : List Name}
    (h : GetGamemodeList settings rounds = some (.ok (found, gamemodes))) :
    construct td server disable settings rounds =
      loadAll (loadedFiles td server disable found gamemodes) [] := by
  rcases disable with _ | _
  · rcases found with _ | _
    · rw [construct, if_neg Bool.false_ne_true, h]
      rfl
    · exact construct_eq h
  · rfl

/-- `dbg_LoadInfo` stays in its block, and what it loads has a whole header. -/
def Loadable (fp : List UInt8) : Prop :=
  dbg_LoadInfo fp ≠ none ∧ ∀ img, dbg_LoadInfo fp = some (.ok img) → sizeof_AMX_HEADER ≤ fp.length

theorem InitDebugData_isSome_iff {file : Option (List UInt8)} :
    (InitDebugData file available).isSome ↔ ∀ fp, file = some fp → Loadable fp := by
  rcases file with _ | fp
  · simp [InitDebugData]
  · simp only [InitDebugData, Option.some.injEq, forall_eq', Loadable]
    rcases hload : dbg_LoadInfo fp with _ | e | img
    · simp
    · simp
    · simp [Option.isSome_iff_ne_none]

/-- **The constructor gets through its files exactly when each of them is loadable.** -/
theorem loadAll_isSome_iff {fs : List (Option (List UInt8))} (available : Available) :
    (loadAll fs available).isSome ↔ ∀ fp, some fp ∈ fs → Loadable fp := by
  induction fs generalizing available with
  | nil => simp [loadAll]
  | cons file fs ih =>
    constructor
    · intro h fp hmem
      obtain ⟨after, hafter⟩ := Option.isSome_iff_exists.mp h
      obtain ⟨r, hr, hrest⟩ := Option.bind_eq_some_iff.mp hafter
      rcases List.mem_cons.mp hmem with heq | hmem
      · exact InitDebugData_isSome_iff.mp (by rw [hr]; rfl) fp heq.symm
      · exact (ih _).mp (by rw [hrest]; rfl) fp hmem
    · intro h
      have hfile : (InitDebugData file available).isSome := InitDebugData_isSome_iff.mpr
        fun fp heq => h fp (heq ▸ List.mem_cons_self)
      obtain ⟨r, hr⟩ := Option.isSome_iff_exists.mp hfile
      rw [loadAll, hr, Option.bind_some]
      exact (ih _).mpr fun fp hmem => h fp (List.mem_cons_of_mem _ hmem)

/-- The entry has been loaded from one of the files, under the file's header, and these are the
tables in it. -/
def LoadedFrom (fs : List (Option (List UInt8))) (d : AMX_HEADER × Image)
    (e : AMX_HEADER × Tables) : Prop :=
  d.1 = e.1 ∧ ∃ fp, some fp ∈ fs ∧ e.1 = fp.take sizeof_AMX_HEADER ∧
    dbg_LoadInfo fp = some (.ok d.2) ∧ ReadFrom d.2 e.2

/-- What `GetFunctionCall` sees of the tables. -/
def views (tables : List (AMX_HEADER × Tables)) : List (AMX_HEADER × AMX_DBG) :=
  tables.map fun e => (e.1, view e.2)

theorem exists_tables_of_entries {fs : List (Option (List UInt8))} : ∀ {ds : Available},
    (∀ d ∈ ds, ∃ fp, some fp ∈ fs ∧ d.1 = fp.take sizeof_AMX_HEADER ∧
      dbg_LoadInfo fp = some (.ok d.2)) →
    ∃ tables, List.Forall₂ (LoadedFrom fs) ds tables ∧ List.Forall₂ SameEntry ds (views tables)
  | [], _ => ⟨[], .nil, .nil⟩
  | d :: ds, h => by
    obtain ⟨fp, hfp, hhdr, hload⟩ := h d List.mem_cons_self
    obtain ⟨T, hread, hanswers⟩ := lookup_loaded hload
    obtain ⟨tables, hfrom, hsame⟩ :=
      exists_tables_of_entries fun e he => h e (List.mem_cons_of_mem _ he)
    exact ⟨(d.1, T) :: tables, .cons ⟨rfl, fp, hfp, hhdr, hload, hread⟩ hfrom,
      .cons ⟨rfl, hanswers⟩ hsame⟩

/-- A file that the compiler has written with the tables `T`, which have a symbol, and which
`dbg_LoadInfo` can find the end of the lines in. -/
structure Compiled (code : List UInt8) (T : Tables) (v : Version) : Prop where
  code : HasDebug code
  fits : Fits T
  ascending : Ascending T
  found : ∃ s c, T.symbols.head? = some s ∧
    read32 (T.chunk v) (T.linetbl - AddressLookup.sizeof_AMX_DBG_LINE) = some c ∧ LinesFound T c s

namespace Compiled

variable {code : List UInt8} {T : Tables} {v : Version} (h : Compiled code T v)
include h

theorem loads : dbg_LoadInfo (code ++ T.chunk v) = some (.ok (T.image (T.chunk v))) := by
  obtain ⟨s, c, hs, hc, hfound⟩ := h.found
  obtain ⟨rest, hrest⟩ := List.head?_eq_some_iff.mp hs
  exact (dbg_LoadInfo_chunk_iff h.code h.fits v hrest).mpr
    ((skipOverflow_iff (in_chunk h.fits.valid v) hc hrest h.ascending).mpr hfound)

theorem symbols_ne_nil : T.symbols ≠ [] := by
  obtain ⟨s, c, hs, -⟩ := h.found
  rintro hnil
  rw [hnil] at hs
  exact absurd hs (by simp)

theorem header_eq : (code ++ T.chunk v).take sizeof_AMX_HEADER = code.take sizeof_AMX_HEADER :=
  List.take_append_of_le_length h.code.header

theorem answers : Answers (T.image (T.chunk v)) (view T) := by
  obtain ⟨hload, -⟩ := walked_of_loaded h.loads
  have hin : T.In (T.chunk v ++ []) := by
    rw [List.append_nil]
    exact in_chunk h.fits.valid v
  exact answers_of_loaded hload hin rfl

end Compiled

/-- What is available for a header that only one file has is what this file holds. -/
theorem table_eq {fs : List (Option (List UInt8))} (hload : loadAll fs [] = some available)
    (horder : order.Perm available) {code : List UInt8} {T : Tables} {v : Version}
    (hcompiled : Compiled code T v) (hmem : some (code ++ T.chunk v) ∈ fs)
    (hsame : ∀ fp, some fp ∈ fs → fp.take sizeof_AMX_HEADER = code.take sizeof_AMX_HEADER →
      fp = code ++ T.chunk v) :
    table order (code.take sizeof_AMX_HEADER) = some (T.image (T.chunk v)) := by
  have hentry : (code.take sizeof_AMX_HEADER, T.image (T.chunk v)) ∈ order :=
    horder.mem_iff.mpr ((mem_loadAll hload).mpr
      (.inr ⟨_, hmem, hcompiled.header_eq.symm, hcompiled.loads⟩))
  rw [table]
  cases hfind : order.find? fun d => d.1 = code.take sizeof_AMX_HEADER with
  | none =>
    rw [List.find?_eq_none] at hfind
    exact absurd (decide_eq_true rfl) (hfind _ hentry)
  | some d =>
    have hhdr : d.1 = code.take sizeof_AMX_HEADER := by simpa using List.find?_some hfind
    have hd := horder.mem_iff.mp (List.mem_of_find?_eq_some hfind)
    rcases (mem_loadAll hload).mp hd with hnil | ⟨fp, hfp, hfphdr, hfpload⟩
    · exact absurd hnil List.not_mem_nil
    · rw [hsame fp hfp (hfphdr.symm.trans hhdr), hcompiled.loads] at hfpload
      rw [Option.map_some, ← Except.ok.inj (Option.some.inj hfpload)]

/-- **A script is answered from the tables that its file was compiled with.** Debug information is
enabled, and `server.cfg` names a gamemode. All files that the constructor loads from are loadable;
among them is one with the tables `T`, and no other begins with the same header. Then the
constructor gets through, and in every history of registrations, in whatever order the files are
gone through, an AMX whose first registration since it was last erased was with this header is
answered from `T`; one that has not been registered since, or only with headers of no file, is not
answered. -/
theorem answers_as_compiled [DecidableEq P] {gamemodes : List Name}
    (hgamemodes : GetGamemodeList settings rounds = some (.ok (true, gamemodes)))
    (hfiles : ∀ fp, some fp ∈ files td server gamemodes → Loadable fp)
    {code : List UInt8} {T : Tables} {v : Version} (hcompiled : Compiled code T v)
    (hmem : some (code ++ T.chunk v) ∈ files td server gamemodes)
    (hsame : ∀ fp, some fp ∈ files td server gamemodes →
      fp.take sizeof_AMX_HEADER = code.take sizeof_AMX_HEADER → fp = code ++ T.chunk v) :
    ∃ available, construct td server false settings rounds = some available ∧
      ∀ order, order.Perm available →
        ∀ (calls : List (Call P)) (amx : P) (address : Cell) (dest : AmxFuncCallInfo),
          (binding order amx calls = some (code.take sizeof_AMX_HEADER) →
            GetFunctionCall (history false order calls) amx address dest =
              some (AmxDebugManager.lookup (view T) address dest)) ∧
          (binding order amx calls = none →
            GetFunctionCall (history false order calls) amx address dest = some (false, dest)) := by
  obtain ⟨available, hload⟩ :=
    Option.isSome_iff_exists.mp ((loadAll_isSome_iff []).mpr hfiles)
  refine ⟨available, (construct_eq hgamemodes).trans hload, ?_⟩
  intro order horder calls amx address dest
  have hmap := amxDebugMap_history order amx calls
  rw [GetFunctionCall, (history_members false order calls).1, if_neg Bool.false_ne_true]
  constructor
  · intro hbinding
    rw [hbinding, Option.bind_some, table_eq hload horder hcompiled hmem hsame] at hmap
    rw [hmap]
    have hview : (view T).symboltbl ≠ [] := by simpa [view] using hcompiled.symbols_ne_nil
    exact (hcompiled.answers address dest).trans (if_neg hview)
  · intro hbinding
    rw [hbinding] at hmap
    rw [hmap]
    rfl

end Files

/-! A server with one script, in a folder below `filterscripts`. -/

def smallFile : List UInt8 := smallCode ++ smallTables.chunk smallVersion

def smallServer : Server where
  fopen _ := none
  filterscripts := .dir ['.', '.'] .nil
    (.dir ['f'] (.file ['a', '.', 'a', 'm', 'x'] (some smallFile) .nil) .nil)

def smallSettings : Settings := fun key => if key = gamemode 0 then some ['g', ' ', '1'] else none

def smallAvailable : Available :=
  [(smallCode.take sizeof_AMX_HEADER, smallTables.image (smallTables.chunk smallVersion))]

theorem gamemodes_small : GetGamemodeList smallSettings 2 = some (.ok (true, [['g']])) := by
  decide

theorem files_small : files Tinydir.strrchr smallServer [['g']] = [none, some smallFile] := by
  decide

theorem construct_small :
    construct Tinydir.strrchr smallServer false smallSettings 2 = some smallAvailable := by
  rw [construct_eq gamemodes_small, files_small, loadAll, InitDebugData, Option.bind_some, loadAll,
    InitDebugData, smallFile, loaded_small]
  rfl

theorem loadable_small : ∀ fp, some fp ∈ files Tinydir.strrchr smallServer [['g']] →
    Loadable fp := by
  refine (loadAll_isSome_iff []).mp ?_
  rw [← construct_eq gamemodes_small, construct_small]
  rfl

theorem compiled_small : Compiled smallCode smallTables smallVersion where
  code := hasDebug_small
  fits := fits_small
  ascending := ascending_small
  found := ⟨_, 0, rfl, by decide, fun h => absurd h (by decide), by decide⟩

/-- The script is registered, erased and registered again, with a header of no file in between. -/
theorem answers_as_compiled_small : GetFunctionCall (history false smallAvailable
      [.RegisterAmx () (smallCode.take sizeof_AMX_HEADER), .EraseAmx (), .RegisterAmx () [],
        .RegisterAmx () (smallCode.take sizeof_AMX_HEADER)]) () 8 ⟨0, none, none⟩ =
    some (true, ⟨1, some "a.p", some "ma"⟩) := by
  have hmem : some smallFile ∈ files Tinydir.strrchr smallServer [['g']] := by
    rw [files_small]
    exact List.mem_cons_of_mem _ List.mem_cons_self
  have hsame : ∀ fp, some fp ∈ files Tinydir.strrchr smallServer [['g']] →
      fp.take sizeof_AMX_HEADER = smallCode.take sizeof_AMX_HEADER → fp = smallFile := by
    rw [files_small]
    rintro fp hfp -
    rcases List.mem_cons.mp hfp with hnone | hfp
    · exact absurd hnone (by simp)
    · exact Option.some.inj (List.mem_singleton.mp hfp)
  obtain ⟨available, havailable, hanswers⟩ :=
    answers_as_compiled (P := Unit) gamemodes_small loadable_small compiled_small hmem hsame
  obtain rfl := Option.some.inj (havailable.symm.trans construct_small)
  refine ((hanswers smallAvailable (List.Perm.refl _) _ () 8 ⟨0, none, none⟩).1 ?_).trans ?_
  · decide
  · decide

end SampLogCore.Debug.DebugData
