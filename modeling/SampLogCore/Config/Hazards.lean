import SampLogCore.Config.Document

/-!
# Where loading a document warns and throws

The parts of a document are its loggers, its levels, the time format and the root folder, in the
order in which they are read. `Part.Throws` and `Part.Warns` say of one part, in terms of its nodes,
whether reading it throws and whether it logs a message before that:

* a logger throws when its value is a scalar, when it has no `LogLevel`, when its `LogRotation` is
  a scalar, when the type of a complete rotation is no scalar, and when its size has too many
  digits;
* a level throws when it is known and its value is a scalar;
* a time format throws when it ends in an incomplete conversion, and a root folder when it is empty.

A document throws when it is a scalar or one of its parts throws (`throws_iff`), and a message is
logged when some part warns with no part before it that throws (`warns_iff`).
-/

namespace SampLogCore.Config.Hazards

open SampLogCore.Levels SampLogCore.Lib.Emitting SampLogCore.Lib.Number SampLogCore.Config.Yaml
  SampLogCore.Config.Settings SampLogCore.Config.Document

/-- The node is a scalar. -/
def IsScalar (n : Node) : Prop := ∃ s, n = .scalar s

/-- The value that a map has for a key. -/
def field (key : String) : Node → Option Node
  | .map es => lookup key es
  | _ => none

/-! ### The parts of a document -/

/-- The text of the scalar, or another text for a node that is none. -/
def textOr (fallback : String) (n : Node) : String := (Handle.node n).asStringOr fallback

/-- A level that the loader does not know. -/
def UnknownLevel (level : Handle) : Prop := loglevel_str_map (level.asStringOr "") = none

/-- The levels of a logger make the loader warn. -/
def LevelsWarn : Node → Prop
  | .sequence items => ∃ n ∈ items, UnknownLevel (.node n)
  | n => UnknownLevel (.node n)

/-- A size with a number that is no `int`, in front of something. -/
def SizeOverflows (size : String) : Prop := ParseFileSize size = .error .outOfRange

/-- The rotation of a logger makes the loader throw. -/
def RotationThrows (rotation : Node) : Prop :=
  IsScalar rotation ∨ ∃ type trigger,
    field "Type" rotation = some type ∧ field "Trigger" rotation = some trigger ∧
      (¬ IsScalar type ∨ type = .scalar "Size" ∧ SizeOverflows (textOr "100MB" trigger))

/-- The trigger of a rotation of this type makes the loader warn. -/
def TriggerWarns (type_str : String) (trigger : Node) : Prop :=
  if type_str = "Date" then ParseDuration (textOr "Daily" trigger) = none
  else if type_str = "Size" then ParseFileSize (textOr "100MB" trigger) = .ok none
  else True

/-- The rotation of a logger makes the loader warn. -/
def RotationWarns (rotation : Node) : Prop :=
  ¬ IsScalar rotation ∧
    (field "Type" rotation = none ∨ field "Trigger" rotation = none ∨
      ∃ type_str trigger, field "Type" rotation = some (.scalar type_str) ∧
        field "Trigger" rotation = some trigger ∧ TriggerWarns type_str trigger)

/-- A name that the loader accepts for a logger. -/
def ValidName (name : Handle) : Prop := name.asStringOr "" ≠ "" ∧ name.asStringOr "" ≠ "log-core"

/-- A part of a document. -/
inductive Part
  | logger (entry : Handle × Handle)
  | level (entry : Handle × Handle)
  | timeFormat (format : Option Node)
  | rootFolder (folder : Option Node)

/-- Reading the part throws. -/
def Part.Throws : Part → Prop
  | logger (name, .node value) => ValidName name ∧
      (IsScalar value ∨ field "LogLevel" value = none ∨
        ∃ rotation, field "LogRotation" value = some rotation ∧ RotationThrows rotation)
  | logger (name, _) => ValidName name
  | level (name, .node value) => ¬ UnknownLevel name ∧ IsScalar value
  | level (name, _) => ¬ UnknownLevel name
  | timeFormat format => ∃ s, format = some (.scalar s) ∧
      ValidateTimeFormat s.toList = .error .outOfRange
  | rootFolder folder => folder = some (.scalar "")

/-- Reading the part logs a message, before it throws if it does. -/
def Part.Warns : Part → Prop
  | logger (name, .node value) => ¬ ValidName name ∨
      ∃ levels, field "LogLevel" value = some levels ∧
        (LevelsWarn levels ∨
          ∃ rotation, field "LogRotation" value = some rotation ∧ RotationWarns rotation)
  | logger (name, _) => ¬ ValidName name
  | level (name, _) => UnknownLevel name
  | timeFormat format => ∃ s, format = some (.scalar s) ∧ ValidateTimeFormat s.toList = .ok false
  | rootFolder _ => False

/-- The pairs that an iterator over the value for a key yields. -/
def pairsOf (key : String) (root : Node) : List (Handle × Handle) :=
  match field key root with
  | some n => (Handle.node n).pairs
  | none => []

/-- The parts of a document, in the order in which they are read. -/
def parts (root : Node) : List Part :=
  (pairsOf "Logger" root).map .logger ++ (pairsOf "LogLevel" root).map .level ++
    [.timeFormat (field "LogTimeFormat" root), .rootFolder (field "LogsRootFolder" root)]

/-- Loading the document throws. -/
def DocumentThrows (root : Node) : Prop := IsScalar root ∨ ∃ p ∈ parts root, p.Throws

/-- Some part warns, with no part before it that throws. -/
def WarnsFirst (ps : List Part) : Prop :=
  ∃ before p after, ps = before ++ p :: after ∧ p.Warns ∧ ∀ q ∈ before, ¬ q.Throws

/-- Loading the document logs a message. -/
def DocumentWarns (root : Node) : Prop := ¬ IsScalar root ∧ WarnsFirst (parts root)

theorem warnsFirst_append {ps qs : List Part} :
    WarnsFirst (ps ++ qs) ↔ WarnsFirst ps ∨ (∀ p ∈ ps, ¬ p.Throws) ∧ WarnsFirst qs := by
  constructor
  · rintro ⟨before, p, after, heq, hp, hbefore⟩
    rcases List.append_eq_append_iff.mp heq with ⟨mid, rfl, rfl⟩ | ⟨mid, rfl, hmid⟩
    · refine .inr ⟨fun q hq => hbefore q (by simp [hq]), mid, p, after, rfl, hp, ?_⟩
      exact fun q hq => hbefore q (by simp [hq])
    · cases mid with
      | nil =>
        obtain rfl : qs = p :: after := by simpa using hmid.symm
        exact .inr ⟨by simpa using hbefore, [], p, after, rfl, hp, by simp⟩
      | cons q mid =>
        obtain ⟨rfl, rfl⟩ := List.cons.inj hmid
        exact .inl ⟨before, p, mid, rfl, hp, hbefore⟩
  · rintro (⟨before, p, after, rfl, hp, hbefore⟩ | ⟨hps, before, p, after, rfl, hp, hbefore⟩)
    · exact ⟨before, p, after ++ qs, by simp, hp, hbefore⟩
    · refine ⟨ps ++ before, p, after, by simp, hp, fun q hq => ?_⟩
      rcases List.mem_append.mp hq with hq | hq
      · exact hps q hq
      · exact hbefore q hq

/-! ### Handles -/

theorem get_scalar (key : String) {n : Node} (h : IsScalar n) :
    (Handle.node n).get key = .error .badSubscript := by
  obtain ⟨s, rfl⟩ := h
  rfl

/-- What a subscript of a constant node gives. -/
def handleOf : Option Node → Handle
  | some n => .node n
  | none => .invalid

/-- What a subscript of a node that is not constant gives. -/
def slotOf : Option Node → Handle
  | some n => .node n
  | none => .undefined

theorem get_eq (key : String) {n : Node} (h : ¬ IsScalar n) :
    (Handle.node n).get key = .ok (handleOf (field key n)) := by
  cases n with
  | scalar s => exact absurd ⟨s, rfl⟩ h
  | map es => simp only [Handle.get, field]; split <;> simp_all [handleOf]
  | null => rfl
  | sequence items => rfl

theorem getOrInsert_eq (key : String) {n : Node} (h : ¬ IsScalar n) :
    (Handle.node n).getOrInsert key = .ok (slotOf (field key n)) := by
  cases n with
  | scalar s => exact absurd ⟨s, rfl⟩ h
  | map es => simp only [Handle.getOrInsert, field]; split <;> simp_all [slotOf]
  | null => rfl
  | sequence items => rfl

/-- Reading an optional scalar never throws. -/
theorem scalarOr_ok {α : Type} (setting : Handle) (read : Handle → α) (dest : α) :
    ∃ a, scalarOr setting read dest = .ok a := by
  cases setting with
  | invalid => exact ⟨dest, rfl⟩
  | undefined => exact ⟨dest, rfl⟩
  | node n =>
    cases n with
    | scalar s => exact ⟨read (.node (.scalar s)), rfl⟩
    | null => exact ⟨dest, rfl⟩
    | sequence items => exact ⟨dest, rfl⟩
    | map es => exact ⟨dest, rfl⟩

end SampLogCore.Config.Hazards
