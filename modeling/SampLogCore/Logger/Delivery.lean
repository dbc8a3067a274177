import SampLogCore.Logger.LogOutput
import SampLogCore.Rotation.DateHistory
import SampLogCore.Rotation.History

/-!
# From the call to the disk

Threads queue messages, the worker executes them and appends a line to the log file and another to
the file of the level, and the rotation thread renames and deletes these files meanwhile. Here the
whole way is one system: the `LogManager`, and a log file under rotation as one of its files.
Executing an action takes several steps, so that the rotation can come between opening the file and
writing to it.

* `size_rotation_delivers`, `date_rotation_delivers`: at any moment the records of the executed
  actions are what was in the deleted backups, followed by the backups and the log file in their
  order. When the worker has left they are those of all messages pushed before the shutdown.
-/

namespace SampLogCore.Logger.Delivery

open SampLogCore.Lib.Lines SampLogCore.Lib.Transition SampLogCore.LogManager
  SampLogCore.LogManager.Process SampLogCore.LogManager.Drain SampLogCore.Logger.LogOutput
  SampLogCore.Rotation.LogDirectory
open SampLogCore.Rotation.SizeRotation (Record Tinydir)

/-! ### A file under rotation -/

/-- A log file under rotation as the writer sees it: it opens the file and then appends a record,
and what it has appended grows by that. The conditions on the other steps are those of the
rotation. -/
structure Store (σ ε : Type*) where
  Init : σ → Prop
  step : σ → ε → Option σ
  Allowed : σ → ε → Prop
  openLog : ε
  write : Record → ε
  openLog_ne_write : ∀ r, openLog ≠ write r
  /-- history: the records that have been appended -/
  appended : σ → List Record
  allowed_openLog : ∀ s, Allowed s openLog
  allowed_write : ∀ s r, Allowed s (write r)
  appended_init : ∀ s, Init s → appended s = []
  appended_write : ∀ s r t, ((ofStep Init step).restrict Allowed).Reachable s →
    step s (write r) = some t → appended t = appended s ++ [r]
  appended_of_ne : ∀ s e t, (∀ r, e ≠ write r) → step s e = some t → appended t = appended s

namespace Store

variable {σ ε : Type*} (store : Store σ ε)

def system : System σ ε := (ofStep store.Init store.step).restrict store.Allowed

end Store

/-! ### The server -/

/-- The bytes of a line. -/
def record (l : Line) : Record := (l.write ++ ['\n']).map fun c => UInt8.ofNat c.toNat

/-- The `LogManager`, the file, and the action that is being executed. -/
structure Server (Producer Time σ : Type*) where
  manager : Process.State Producer (Message Time)
  file : σ
  /-- what the action has read of the configuration, and the records it has still to append -/
  action : Option (Settings × List Record)
  /-- history: the executed actions, and what they have read of the configuration -/
  done : List (Settings × Action Producer (Message Time))

/-- What can happen. -/
inductive Event (Producer Time ε : Type*)
  /-- any step but the execution of an action -/
  | manager (e : Process.Event Producer (Message Time))
  /-- the worker begins to execute its action, which reads these settings -/
  | start (c : Settings)
  /-- the action opens the file -/
  | openLog
  /-- the action appends its next record -/
  | write
  /-- the action returns -/
  | finish
  /-- the rotation thread or another program takes a step -/
  | file (e : ε)

variable {Producer Time σ ε : Type*} (conversion : Time → Char → List Char) (path : Path)

/-- The records that an action appends to the file. -/
def recordsFor (c : Settings) (m : Message Time) : List Record :=
  (linesFor conversion path c m).map record

/-- The records of what has been executed. -/
def recordsOf (done : List (Settings × Action Producer (Message Time))) : List Record :=
  done.flatMap fun d => recordsFor conversion path d.1 d.2.msg

variable [DecidableEq Producer] (store : Store σ ε)

/-- One step. When the action throws, it does not return. -/
def step (s : Server Producer Time σ) : Event Producer Time ε → Option (Server Producer Time σ)
  | .manager e =>
    match s.manager.worker, e with
    | .run _, .process => none
    | _, _ => (Process.step s.manager e).map fun manager => { s with manager := manager }
  | .start c =>
    match s.manager.worker, s.action with
    | .run a, none => some { s with action := some (c, recordsFor conversion path c a.msg) }
    | _, _ => none
  | .openLog =>
    match s.action with
    | some (_, _ :: _) =>
      (store.step s.file store.openLog).map fun file => { s with file := file }
    | _ => none
  | .write =>
    match s.action with
    | some (c, r :: rest) => (store.step s.file (store.write r)).map fun file =>
      { s with file := file, action := some (c, rest) }
    | _ => none
  | .finish =>
    match s.manager.worker, s.action with
    | .run a, some (c, []) =>
      match (logAction conversion c a.msg).result with
      | .error _ => none
      | .ok _ => (processStep s.manager).map fun manager =>
        { s with manager := manager, action := none, done := s.done ++ [(c, a)] }
    | _, _ => none
  | .file e => (store.step s.file e).map fun file => { s with file := file }

/-- The conditions of the rotation. Only the action opens the file and writes to it. -/
def Allowed (s : Server Producer Time σ) : Event Producer Time ε → Prop
  | .file e => store.Allowed s.file e ∧ e ≠ store.openLog ∧ ∀ r, e ≠ store.write r
  | _ => True

/-- **The way from the call to the disk.** -/
def system : System (Server Producer Time σ) (Event Producer Time ε) :=
  (ofStep (fun s => s.manager = initial ∧ store.Init s.file ∧ s.action = none ∧ s.done = [])
    (step conversion path store)).restrict (Allowed store)

/-- What every reachable state satisfies. -/
structure Inv (s : Server Producer Time σ) : Prop where
  manager : (Process.system Producer (Message Time)).Reachable s.manager
  file : store.system.Reachable s.file
  done : s.done.map Prod.snd = s.manager.executed
  /-- what has been appended are the records of the executed actions, and those that the current one
  no longer has to append -/
  appended : store.appended s.file = recordsOf conversion path s.done ∧ s.action = none ∨
    ∃ c begun rest a, s.action = some (c, rest) ∧ s.manager.worker = .run a ∧
      begun ++ rest = recordsFor conversion path c a.msg ∧
      store.appended s.file = recordsOf conversion path s.done ++ begun

variable {conversion path store} {s t : Server Producer Time σ}

/-- The worker stays at its action as long as it takes no step itself. -/
theorem run_of_step {Msg : Type*} {m m' : Process.State Producer Msg}
    {e : Process.Event Producer Msg} (h : Process.step m e = some m') (hne : e ≠ .process)
    {a : Action Producer Msg} (ha : m.worker = .run a) : m'.worker = .run a := by
  have hnotify : m.notifyOne.worker = .run a := by
    rw [State.notifyOne, ha]
    exact ha
  rcases e with _ | ⟨p, msg⟩ | p | _ | _ | _ | _
  · simp [Process.step, ha] at h
  · simp only [Process.step, ha] at h
    split at h <;> simp at h
    obtain rfl := h
    rfl
  · rcases queueStep_cases h with ⟨m, -, -, rfl⟩ | ⟨m, -, rfl⟩ | ⟨-, rfl⟩ | ⟨-, rfl⟩
    · exact ha
    · exact ha
    · exact ha
    · exact hnotify
  · exact absurd rfl hne
  · simp [Process.step, ha] at h
  · simp only [Process.step, ha] at h
    split at h <;> simp at h
    obtain rfl := h
    rfl
  · rcases destructorStep_cases h with ⟨-, -, rfl⟩ | ⟨-, rfl⟩ | ⟨-, rfl⟩ | ⟨-, rfl⟩ | ⟨-, -, rfl⟩
    · exact ha
    · exact ha
    · exact ha
    · exact hnotify
    · exact ha

theorem inv_manager (hi : Inv conversion path store s) {e : Process.Event Producer (Message Time)}
    (h : step conversion path store s (.manager e) = some t) : Inv conversion path store t := by
  simp only [step] at h
  split at h
  · simp at h
  · rename_i hnot
    obtain ⟨m, hm, rfl⟩ := Option.map_eq_some_iff.mp h
    have hexecuted : m.executed = s.manager.executed :=
      executed_of_step hm fun ⟨he, a, ha⟩ => hnot a ha he
    refine ⟨hi.manager.next hm, hi.file, hi.done.trans hexecuted.symm, ?_⟩
    rcases hi.appended with hidle | ⟨c, begun, rest, a, hact, ha, hrest⟩
    · exact .inl hidle
    · exact .inr ⟨c, begun, rest, a, hact, run_of_step hm (hnot a ha) ha, hrest⟩

theorem inv_start (hi : Inv conversion path store s) {c : Settings}
    (h : step conversion path store s (.start c) = some t) : Inv conversion path store t := by
  simp only [step] at h
  split at h
  · rename_i a ha hact
    obtain rfl := Option.some.inj h
    refine ⟨hi.manager, hi.file, hi.done, ?_⟩
    rcases hi.appended with ⟨happ, -⟩ | ⟨c', begun, rest, a', hact', -⟩
    · exact .inr ⟨c, [], _, a, rfl, ha, rfl, by simpa using happ⟩
    · rw [hact] at hact'
      exact absurd hact' (by simp)
  · simp at h

theorem inv_openLog (hi : Inv conversion path store s)
    (h : step conversion path store s .openLog = some t) : Inv conversion path store t := by
  simp only [step] at h
  split at h
  · rename_i c r rest hact
    obtain ⟨file, hfile, rfl⟩ := Option.map_eq_some_iff.mp h
    have happ := store.appended_of_ne _ _ _ store.openLog_ne_write hfile
    refine ⟨hi.manager, hi.file.next ⟨store.allowed_openLog _, hfile⟩, hi.done, ?_⟩
    rw [happ]
    exact hi.appended
  · simp at h

theorem inv_write (hi : Inv conversion path store s)
    (h : step conversion path store s .write = some t) : Inv conversion path store t := by
  simp only [step] at h
  split at h
  · rename_i c r rest hact
    obtain ⟨file, hfile, rfl⟩ := Option.map_eq_some_iff.mp h
    have happ := store.appended_write _ _ _ hi.file hfile
    refine ⟨hi.manager, hi.file.next ⟨store.allowed_write _ _, hfile⟩, hi.done, ?_⟩
    rcases hi.appended with ⟨-, hnone⟩ | ⟨c', begun, rest', a, hact', ha, hrest, hbegun⟩
    · rw [hact] at hnone
      exact absurd hnone (by simp)
    · rw [hact] at hact'
      obtain ⟨rfl, rfl⟩ := Prod.mk.inj (Option.some.inj hact')
      refine .inr ⟨c, begun ++ [r], rest, a, rfl, ha, ?_, ?_⟩
      · rw [List.append_assoc]
        exact hrest
      · rw [happ, hbegun, List.append_assoc]
  · simp at h

theorem inv_finish (hi : Inv conversion path store s)
    (h : step conversion path store s .finish = some t) : Inv conversion path store t := by
  simp only [step] at h
  split at h
  · rename_i a c ha hact
    split at h
    · simp at h
    · obtain ⟨m, hm, rfl⟩ := Option.map_eq_some_iff.mp h
      have hnext : Process.step s.manager .process = some m := hm
      rw [processStep, ha] at hm
      obtain rfl := Option.some.inj hm
      refine ⟨hi.manager.next hnext, hi.file, ?_, .inl ⟨?_, rfl⟩⟩
      · rw [List.map_append, hi.done]
        rfl
      · rcases hi.appended with ⟨-, hnone⟩ | ⟨c', begun, rest, a', hact', ha', hrest, hbegun⟩
        · rw [hact] at hnone
          exact absurd hnone (by simp)
        · rw [hact] at hact'
          obtain ⟨rfl, rfl⟩ := Prod.mk.inj (Option.some.inj hact')
          obtain rfl : a = a' := by
            rw [ha] at ha'
            simpa using ha'
          rw [List.append_nil] at hrest
          rw [hbegun, hrest, recordsOf, recordsOf, List.flatMap_append, List.flatMap_singleton]
  · simp at h

theorem inv_file (hi : Inv conversion path store s) {e : ε}
    (hallowed : store.Allowed s.file e) (hne : ∀ r, e ≠ store.write r)
    (h : step conversion path store s (.file e) = some t) : Inv conversion path store t := by
  obtain ⟨file, hfile, rfl⟩ := Option.map_eq_some_iff.mp h
  have happ := store.appended_of_ne _ _ _ hne hfile
  refine ⟨hi.manager, hi.file.next ⟨hallowed, hfile⟩, hi.done, ?_⟩
  rw [happ]
  exact hi.appended

/-- A step of the rotation is one of the server. -/
theorem step_file {e : ε} {file : σ} (h : store.step s.file e = some file) :
    step conversion path store s (.file e) = some { s with file := file } := by
  simp only [step, h, Option.map_some]

/-- **Every step keeps the invariant.** -/
theorem inv_step (hi : Inv conversion path store s) {e : Event Producer Time ε}
    (hallowed : Allowed store s e) (h : step conversion path store s e = some t) :
    Inv conversion path store t := by
  cases e with
  | manager e => exact inv_manager hi h
  | start c => exact inv_start hi h
  | openLog => exact inv_openLog hi h
  | write => exact inv_write hi h
  | finish => exact inv_finish hi h
  | file e => exact inv_file hi hallowed.1 hallowed.2.2 h

theorem reachable_inv (h : (system conversion path store).Reachable s) :
    Inv conversion path store s := by
  refine h.invariant (I := Inv conversion path store) ?_ ?_
  · rintro s ⟨hmanager, hfile, haction, hdone⟩
    refine ⟨?_, .init hfile, by rw [hmanager, hdone]; rfl, .inl ⟨?_, haction⟩⟩
    · rw [hmanager]
      exact .init rfl
    · rw [store.appended_init _ hfile, hdone]
      rfl
  · rintro s e t hi ⟨hallowed, hst⟩
    exact inv_step hi hallowed hst

/-- Of the pushed messages the first have been executed, those of each thread in the order of its
calls, and after the worker has left all that had been pushed before the shutdown. -/
structure Executed (s : Server Producer Time σ) : Prop where
  pushed : s.done.map Prod.snd <+: s.manager.pushed
  called : ∀ p, messagesOf p (s.done.map Prod.snd) <+: s.manager.called p
  drained : s.manager.worker = .exited →
    ∃ l, s.manager.cleared = some l ∧ l <+: s.done.map Prod.snd

theorem executed_of_reachable (h : (system conversion path store).Reachable s) : Executed s := by
  have hi := reachable_inv h
  refine ⟨?_, ?_, ?_⟩
  · rw [hi.done]
    exact executed_prefix_pushed hi.manager
  · rw [hi.done]
    exact messagesOf_executed_prefix hi.manager
  · rw [hi.done]
    exact (Drain.reachable_inv hi.manager).2.drained

/-- When no action is being executed, what has been appended are the records of the executed
ones. -/
theorem appended_eq (h : (system conversion path store).Reachable s) (haction : s.action = none) :
    store.appended s.file = recordsOf conversion path s.done := by
  rcases (reachable_inv h).appended with ⟨happ, -⟩ | ⟨c, begun, rest, a, hact, -⟩
  · exact happ
  · rw [haction] at hact
    exact absurd hact (by simp)

/-! ### Under size rotation -/

section Size

open SampLogCore.Rotation.SizeRotation SampLogCore.Rotation.Backups

variable (td : Tinydir) (F : LogFile)

/-- Only the writer writes. -/
theorem size_written {s t : Rotation.SizeRotation.State} {e : Rotation.SizeRotation.Event}
    (hne : ∀ r, e ≠ .write r) (h : Rotation.SizeRotation.step td F s e = some t) :
    t.written = s.written := by
  cases e with
  | write r => exact absurd rfl (hne r)
  | _ => grind [Rotation.SizeRotation.step]

/-- The log file under `CheckSizeRotation`. -/
def sizeStore : Store Rotation.SizeRotation.State Rotation.SizeRotation.Event where
  Init := Rotation.SizeRotation.Init F
  step := Rotation.SizeRotation.step td F
  Allowed := Rotation.SizeRotation.Allowed F
  openLog := .openLog
  write := .write
  openLog_ne_write r := by simp
  appended := Rotation.SizeRotation.State.written
  allowed_openLog _ := trivial
  allowed_write _ _ := trivial
  appended_init _ h := h.2.2.1
  appended_write s r t _ h := by
    simp only [Rotation.SizeRotation.step] at h
    split at h
    · obtain rfl := Option.some.inj h
      rfl
    · simp at h
  appended_of_ne _ _ _ hne h := size_written td F hne h

/-- The numbers of the files of a chain, from the oldest file on. -/
def numbers (c : Chain) : List ℕ := (List.range c.ids.length).reverse.map c.number

theorem pairwise_numbers (c : Chain) : (numbers c).Pairwise (· > ·) := by
  rw [numbers, List.pairwise_map, List.pairwise_reverse]
  refine List.pairwise_lt_range.imp fun {i j} hij => ?_
  show c.number i < c.number j
  unfold Chain.number
  split_ifs <;> omega

theorem records_eq_numbers {s : Rotation.SizeRotation.State} {c : Chain}
    (h : Represents F s.dir c) :
    c.records s.dir.inodes = (numbers c).flatMap fun n => s.dir.contents (F.backup n) := by
  have hmap : c.ids.map (fun i => (s.dir.inodes i).records) =
      (List.range c.ids.length).map fun j => s.dir.contents (F.backup (c.number j)) := by
    refine List.ext_getElem (by simp) fun j hj _ => ?_
    have hj : j < c.ids.length := by simpa using hj
    rw [List.getElem_map, List.getElem_map, List.getElem_range, ← h.contents_backup hj]
  rw [Chain.records, numbers, List.flatMap_map, List.flatMap_def, List.flatMap_def,
    List.map_reverse, List.map_reverse, hmap]

variable {td F}

/-- **Under size rotation every executed message is on the disk.** In every run in which at least
one backup is kept and other programs leave the names of the log alone, whenever no action is being
executed, also in the middle of a rotation, the records of the executed actions are what was in the
deleted backups, followed by the files of the log from the greatest number to the log file. -/
theorem size_rotation_delivers {s : Server Producer Time Rotation.SizeRotation.State}
    (h : (system conversion F.file_path (sizeStore td F)).Reachable s) (haction : s.action = none) :
    Executed s ∧ ∃ ns : List ℕ, ns.Pairwise (· > ·) ∧
      (∀ name, F.file_name <+: name → (name ∈ s.file.dir.names ↔ ∃ n ∈ ns, name = F.backup n)) ∧
      recordsOf conversion F.file_path s.done =
        s.file.removed ++ ns.flatMap fun n => s.file.dir.contents (F.backup n) := by
  obtain ⟨c, hdata, -⟩ := Rotation.Invariant.reachable_inv (reachable_inv h).file
  have happ : s.file.written = recordsOf conversion F.file_path s.done := appended_eq h haction
  refine ⟨executed_of_reachable h, numbers c, pairwise_numbers c, fun name hname => ?_, ?_⟩
  · rw [mem_iff_lookup]
    constructor
    · rintro ⟨i, hi⟩
      obtain ⟨j, hj, rfl⟩ := (hdata.names name hname i).mp hi
      have hlt := (List.getElem?_eq_some_iff.mp hj).1
      exact ⟨c.number j, List.mem_map.mpr ⟨j, by simpa using hlt, rfl⟩, rfl⟩
    · rintro ⟨n, hn, rfl⟩
      obtain ⟨j, hj, rfl⟩ := List.mem_map.mp hn
      have hlt : j < c.ids.length := by simpa using hj
      exact ⟨c.ids[j], (hdata.names _ hname _).mpr ⟨j, List.getElem?_eq_getElem hlt, rfl⟩⟩
  · rw [← happ, hdata.history, records_eq_numbers F hdata.names]

end Size

/-! ### Under date rotation -/

section Date

variable (td : Tinydir) (F : LogFile)

/-- Only the writer writes. -/
theorem date_written {s t : Rotation.DateHistory.State} {e : Rotation.DateHistory.Event}
    (hne : ∀ r, e ≠ .write r) (h : Rotation.DateHistory.step td F s e = some t) :
    t.written = s.written := by
  cases e with
  | write r => exact absurd rfl (hne r)
  | _ => grind [Rotation.DateHistory.step]

/-- The log file under `CheckDateRotation`. With two backups or more the writer never has a deleted
file open, so what it appends is in a file of the log. -/
def dateStore {n : ℤ} (hn : 2 ≤ n) :
    Store Rotation.DateHistory.State Rotation.DateHistory.Event where
  Init := Rotation.DateHistory.Init F
  step := Rotation.DateHistory.step td F
  Allowed := Rotation.DateHistory.Allowed F n
  openLog := .openLog
  write := .write
  openLog_ne_write r := by simp
  appended := Rotation.DateHistory.State.written
  allowed_openLog _ := trivial
  allowed_write _ _ := trivial
  appended_init _ h := h.2.2.1
  appended_write s r t h hst := by
    have hnext : ((Rotation.DateHistory.system td F).restrict
        (Rotation.DateHistory.Allowed F n)).Reachable t := h.next (e := .write r) ⟨trivial, hst⟩
    obtain ⟨-, -, -, -, hlost⟩ :=
      (Rotation.DateHistory.reachable_inv (by omega) hnext).exists_dates
    simp only [Rotation.DateHistory.step] at hst
    split at hst
    · split_ifs at hst
      · obtain rfl := Option.some.inj hst
        rfl
      · obtain rfl := Option.some.inj hst
        exact absurd (hlost hn) (by simp)
    · simp at hst
  appended_of_ne _ _ _ hne h := date_written td F hne h

variable {td F}

/-- **Under date rotation every executed message is on the disk.** In every run in which at least
two backups are kept, the clock does not go back behind a backup and other programs leave the names
of the log alone, whenever no action is being executed, also in the middle of a rotation, the
records of the executed actions are what was in the deleted backups, followed by the backups in the
order of their dates and the log file. -/
theorem date_rotation_delivers {n : ℤ} (hn : 2 ≤ n)
    {s : Server Producer Time Rotation.DateHistory.State}
    (h : (system conversion F.file_path (dateStore td F hn)).Reachable s)
    (haction : s.action = none) :
    Executed s ∧ ∃ dates : List (List Char), dates.Pairwise (· < ·) ∧
      (∀ name, F.file_name <+: name → name ≠ F.file_name →
        (name ∈ s.file.dir.names ↔ ∃ date ∈ dates, name = F.dated date)) ∧
      recordsOf conversion F.file_path s.done = s.file.removed ++
        (dates.flatMap fun date => s.file.dir.contents (F.dated date)) ++
          s.file.dir.contents F.file_name := by
  have happ : s.file.written = recordsOf conversion F.file_path s.done := appended_eq h haction
  obtain ⟨dates, hsorted, hnames, hhistory, -⟩ :=
    (Rotation.DateHistory.reachable_inv (by omega) (reachable_inv h).file).exists_dates
  exact ⟨executed_of_reachable h, dates, hsorted, hnames, happ ▸ hhistory⟩

end Date

/-! ### A warning, written after its file has been renamed -/

section Run

open SampLogCore.Rotation.History (logA)
open SampLogCore.Rotation.SizeRotation (fileOps movedNums movedNum)

def plain : ℕ → Char → List Char := fun _ c => [c]

/-- The line of the warning. -/
def warningLine : Record := record ⟨[], Console.GetLogLevelAsString Levels.WARNING, ['h', 'i']⟩

/-- The warning is queued, and the worker opens the file for it. -/
def opening : List (Event ℕ ℕ ε) :=
  [.manager .construct, .manager .process, .manager .process, .manager (.call 0 warning),
    .manager (.queue 0), .manager (.queue 0), .manager (.queue 0), .manager (.queue 0),
    .manager .process, .manager .process, .manager .process, .manager .process,
    .start plainSettings, .openLog]

/-- The warning is written, and the library is shut down. -/
def closing : List (Event ℕ ℕ ε) :=
  [.write, .finish, .manager .destroy, .manager .destructor, .manager .destructor,
    .manager .destructor, .manager .process, .manager .process, .manager .process]

theorem allowed_opening (store : Store σ ε) : ∀ e ∈ (opening : List (Event ℕ ℕ ε)),
    ∀ s : Server ℕ ℕ σ, Allowed store s e := by
  simp [opening, Allowed]

theorem allowed_closing (store : Store σ ε) : ∀ e ∈ (closing : List (Event ℕ ℕ ε)),
    ∀ s : Server ℕ ℕ σ, Allowed store s e := by
  simp [closing, Allowed]

/-- The `LogManager` while the warning is written. -/
def busy : Process.State ℕ (Message ℕ) :=
  (exec Process.step initial [.construct, .process, .process, .call 0 warning, .queue 0, .queue 0,
    .queue 0, .queue 0, .process, .process, .process, .process]).get rfl

/-- The server while the warning is written, with its file in this state. -/
def writing (file : σ) : Server ℕ ℕ σ := ⟨busy, file, some (plainSettings, [warningLine]), []⟩

/-- The file is open under size rotation. -/
def sizeOpened : Rotation.SizeRotation.State :=
  { Rotation.History.start with
    dir := Rotation.History.start.dir.create logA.file_name
    opened := some 0 }

/-- It is the first backup now. -/
def sizeRotated : Rotation.SizeRotation.State :=
  { sizeOpened with dir := sizeOpened.dir.rename logA.file_path (filename_count logA.file_path 1) }

theorem movedNums_sizeOpened :
    movedNums Rotation.SizeRotation.Tinydir.strrchr sizeOpened.dir logA.file_name [logA.file_name] =
      [] := by
  have hnone : [logA.file_name].filterMap (movedNum Rotation.SizeRotation.Tinydir.strrchr
      sizeOpened.dir logA.file_name) = [] := by decide
  rw [movedNums, hnone, List.mergeSort_nil]

theorem reachable_sizeRotated :
    (system plain logA.file_path (sizeStore Rotation.SizeRotation.Tinydir.strrchr logA)).Reachable
      (writing sizeRotated) := by
  have hopened : (system plain logA.file_path
      (sizeStore Rotation.SizeRotation.Tinydir.strrchr logA)).Reachable (writing sizeOpened) := by
    refine reachable_exec_restrict opening (.init (s := ⟨initial, Rotation.History.start, none, []⟩)
      ⟨rfl, ⟨rfl, rfl, rfl, rfl, ?_⟩, rfl, rfl⟩) (allowed_opening _) rfl
    intro name i h
    exact absurd h (by simp [Rotation.History.start])
  have hlisting : (system plain logA.file_path
      (sizeStore Rotation.SizeRotation.Tinydir.strrchr logA)).Reachable
        (writing { sizeOpened with rotator := .listing 1 }) :=
    .next (e := .file (.checkSize 0 1)) hopened
      ⟨⟨show 1 ≤ (1 : Int32).toInt by decide, by simp [sizeStore], by simp [sizeStore]⟩, rfl⟩
  have hmoving : (system plain logA.file_path
      (sizeStore Rotation.SizeRotation.Tinydir.strrchr logA)).Reachable
        (writing { sizeOpened with rotator := .moving (fileOps logA.file_path 1 []) }) := by
    refine .next (e := .file (.list [logA.file_name])) hlisting
      ⟨⟨trivial, by simp [sizeStore], by simp [sizeStore]⟩, step_file ?_⟩
    have hperm : [logA.file_name].Perm sizeOpened.dir.names.keys := by decide
    show (if [logA.file_name].Perm sizeOpened.dir.names.keys then some { sizeOpened with
      rotator := .moving (fileOps logA.file_path 1 (movedNums Rotation.SizeRotation.Tinydir.strrchr
        sizeOpened.dir logA.file_name [logA.file_name])) } else none) = _
    rw [if_pos hperm, movedNums_sizeOpened]
  exact .next (e := .file .fileOp) hmoving
    ⟨⟨trivial, by simp [sizeStore], by simp [sizeStore]⟩, rfl⟩

/-- The server after the shutdown. -/
def sizeClosed : Server ℕ ℕ Rotation.SizeRotation.State :=
  (exec (step plain logA.file_path (sizeStore Rotation.SizeRotation.Tinydir.strrchr logA))
    (writing sizeRotated) closing).get rfl

theorem size_rotation_delivers_renamed : sizeClosed.manager.worker = .exited ∧
    sizeClosed.file.dir.contents (logA.backup 1) = [warningLine] ∧ Executed sizeClosed ∧
    ∃ ns : List ℕ, ns.Pairwise (· > ·) ∧
      (∀ name, logA.file_name <+: name →
        (name ∈ sizeClosed.file.dir.names ↔ ∃ n ∈ ns, name = logA.backup n)) ∧
      [warningLine] = sizeClosed.file.removed ++
        ns.flatMap fun n => sizeClosed.file.dir.contents (logA.backup n) :=
  ⟨rfl, by decide, size_rotation_delivers (reachable_exec_restrict closing reachable_sizeRotated
    (allowed_closing _) (Option.some_get _).symm) rfl⟩

open SampLogCore.Rotation.DateHistory (opened moved logfile_dates_opened)
open SampLogCore.Rotation.DateRotation (dateOps dateOps_eq logfile_dates due new_filename)

/-- The same warning, with the log under date rotation, whose first backup is that of the night. -/
theorem reachable_dateRotated : (system plain logA.file_path
    (dateStore Rotation.SizeRotation.Tinydir.strrchr logA (Int.le_refl 2))).Reachable
      (writing moved) := by
  have hopened : (system plain logA.file_path
      (dateStore Rotation.SizeRotation.Tinydir.strrchr logA (Int.le_refl 2))).Reachable
        (writing opened) := by
    refine reachable_exec_restrict opening
      (.init (s := ⟨initial, Rotation.DateHistory.start, none, []⟩)
        ⟨rfl, ⟨rfl, rfl, rfl, rfl, rfl, ?_⟩, rfl, rfl⟩) (allowed_opening _) rfl
    intro name i h
    exact absurd h (by simp [Rotation.DateHistory.start])
  have hlisting : (system plain logA.file_path
      (dateStore Rotation.SizeRotation.Tinydir.strrchr logA (Int.le_refl 2))).Reachable
        (writing { opened with rotator := .listing 2 Rotation.DateHistory.first }) := by
    refine .next (e := .file (.checkDate .DAILY 2 Rotation.DateHistory.first)) hopened
      ⟨⟨⟨by decide, fun date hdate => ?_⟩, by simp [dateStore], by simp [dateStore]⟩, step_file ?_⟩
    · exact absurd hdate (Rotation.DateHistory.not_dated_opened date)
    · show (if ¬ due .DAILY Rotation.DateHistory.first then some opened
        else if (opened.dir.find (new_filename logA.file_path
          Rotation.DateHistory.first)).isSome = true then some opened
        else if (2 : Int32).toInt > 0 then
          some { opened with rotator := .listing 2 Rotation.DateHistory.first }
        else some { opened with rotator := .moving (dateOps logA.file_path (2 : Int32).toInt
          Rotation.DateHistory.first []) }) = _
      rw [if_neg (by decide), if_neg (by decide), if_pos (by decide)]
  have hmoving : (system plain logA.file_path
      (dateStore Rotation.SizeRotation.Tinydir.strrchr logA (Int.le_refl 2))).Reachable
        (writing { opened with
          rotator := .moving (dateOps logA.file_path (2 : Int32).toInt
            Rotation.DateHistory.first []) }) := by
    refine .next (e := .file (.list [logA.file_name])) hlisting
      ⟨⟨trivial, by simp [dateStore], by simp [dateStore]⟩, step_file ?_⟩
    have hperm : [logA.file_name].Perm opened.dir.names.keys := by decide
    show (if [logA.file_name].Perm opened.dir.names.keys then some { opened with
      rotator := .moving (dateOps logA.file_path (2 : Int32).toInt Rotation.DateHistory.first
        (logfile_dates Rotation.SizeRotation.Tinydir.strrchr opened.dir logA.file_name
          [logA.file_name])) } else none) = _
    rw [if_pos hperm, logfile_dates_opened]
  rw [dateOps_eq (by decide), List.take_nil, List.map_nil, List.nil_append] at hmoving
  exact .next (e := .file .fileOp) hmoving
    ⟨⟨trivial, by simp [dateStore], by simp [dateStore]⟩, step_file rfl⟩

/-- The server after the shutdown. -/
def dateClosed : Server ℕ ℕ Rotation.DateHistory.State :=
  (exec (step plain logA.file_path
    (dateStore Rotation.SizeRotation.Tinydir.strrchr logA (Int.le_refl 2))) (writing moved)
      closing).get rfl

theorem date_rotation_delivers_renamed : dateClosed.manager.worker = .exited ∧
    dateClosed.file.dir.contents (logA.dated Rotation.DateHistory.first.format) = [warningLine] ∧
    Executed dateClosed ∧ ∃ dates : List (List Char), dates.Pairwise (· < ·) ∧
      (∀ name, logA.file_name <+: name → name ≠ logA.file_name →
        (name ∈ dateClosed.file.dir.names ↔ ∃ date ∈ dates, name = logA.dated date)) ∧
      [warningLine] = dateClosed.file.removed ++
        (dates.flatMap fun date => dateClosed.file.dir.contents (logA.dated date)) ++
          dateClosed.file.dir.contents logA.file_name :=
  ⟨rfl, by decide, date_rotation_delivers (Int.le_refl 2) (reachable_exec_restrict closing
    reachable_dateRotated (allowed_closing _) (Option.some_get _).symm) rfl⟩

end Run

end SampLogCore.Logger.Delivery
