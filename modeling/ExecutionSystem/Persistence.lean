import Mathlib.Data.Option.Basic

/-!
# A value in memory and its file

What a process keeps in memory is to survive a restart, so it writes a
file whenever it changes the value, and a restart reads the file. The two
agree (`Persisted.Saved`) where reading the file now would give the value
in memory. A change that writes what it leaves in memory keeps the
agreement; one that only assigns keeps it exactly when it changes
nothing.

The file is a text, and its format is somebody else's: all that is asked
of it is that what was dumped is what is loaded (`YamlCodec`).
-/

/-- **A text format for documents**: loading what was dumped gives the
document back. -/
structure YamlCodec (Doc Text : Type) where
  dump : Doc → Text
  safeLoad : Text → Option Doc
  safeLoad_dump : ∀ d, safeLoad (dump d) = some d

/-- The documents themselves, as the texts of a format. -/
def YamlCodec.plain (Doc : Type) : YamlCodec Doc Doc := ⟨id, some, fun _ => rfl⟩

/-- **A value in memory beside its file.** -/
structure Persisted (σ Text : Type) where
  memory : σ
  file : Text

namespace Persisted

variable {σ Text : Type} {load : Text → Option σ} {s : Persisted σ Text}

/-- **A restart would load what is in memory.** -/
def Saved (load : Text → Option σ) (s : Persisted σ Text) : Prop :=
  load s.file = some s.memory

instance [DecidableEq σ] (load : Text → Option σ) (s : Persisted σ Text) :
    Decidable (s.Saved load) := inferInstanceAs (Decidable (_ = _))

/-- The value is assigned, and the file left as it is. -/
def assign (s : Persisted σ Text) (x : σ) : Persisted σ Text := { s with memory := x }

/-- The value is assigned and the file written. -/
def store (s : Persisted σ Text) (x : σ) (text : Text) : Persisted σ Text :=
  { s with memory := x, file := text }

@[simp] theorem memory_assign (x : σ) : (s.assign x).memory = x := rfl
@[simp] theorem file_assign (x : σ) : (s.assign x).file = s.file := rfl
@[simp] theorem memory_store (x : σ) (text : Text) : (s.store x text).memory = x := rfl
@[simp] theorem file_store (x : σ) (text : Text) : (s.store x text).file = text := rfl

/-- **A change that is written is there after a restart**, whatever the
file held before, where what is written loads as what is assigned. -/
theorem saved_store {x : σ} {text : Text} (h : load text = some x) :
    (s.store x text).Saved load := h

/-- **A change that is not written is lost, unless it is none.** -/
theorem Saved.assign_iff (hs : s.Saved load) {x : σ} :
    (s.assign x).Saved load ↔ x = s.memory := by
  show load s.file = some x ↔ x = s.memory
  rw [show load s.file = some s.memory from hs]
  exact ⟨fun h => (Option.some.inj h).symm, fun h => h ▸ rfl⟩

end Persisted
