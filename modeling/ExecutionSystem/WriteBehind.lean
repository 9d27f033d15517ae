import Mathlib.Data.List.Basic
import Mathlib.Logic.Function.Basic

/-!
# Values that are saved in the background

Values under keys are live, and each of them is to be saved. A change of a
value starts a writer, which takes a snapshot of the value at some time and
writes it at some later time. Nothing orders the writers, and a write does
not look at what it overwrites. What a writer has taken before it writes
makes no difference to anything, so a writer is known here by its key, and
its snapshot comes with its write.

The values have converged (`WriteBehind.Converged`) where each key that was
written, and has no writer under way, has its live value saved. Every change
leaves it so, for it starts a writer. What decides it is the writer of a key
that finishes last: the values stay converged exactly when the snapshot it
writes is the value at that time (`converged_finish_iff`), whatever the
writers before it wrote.
-/

/-- A writer of the value of a key. -/
structure BackgroundWriter (κ : Type*) where
  key : κ
  finished : Bool

/-- **Live values, saved values and the writers.** -/
structure WriteBehind (κ α : Type*) where
  live : κ → Option α
  saved : κ → Option α
  writers : List (BackgroundWriter κ)

namespace WriteBehind

variable {κ α : Type*}

/-- The key had a writer, and none is under way. -/
def Settled (s : WriteBehind κ α) (k : κ) : Prop :=
  (∃ w ∈ s.writers, w.key = k) ∧ ∀ w ∈ s.writers, w.key = k → w.finished = true

/-- **Where all writers have finished, the live value is saved.** -/
def Converged (s : WriteBehind κ α) : Prop :=
  ∀ k v, s.live k = some v → s.Settled k → s.saved k = some v

/-- All other writers of the key of a writer have finished. -/
def LastOf (s : WriteBehind κ α) (i : ℕ) (k : κ) : Prop :=
  ∀ (j : ℕ) (w : BackgroundWriter κ), s.writers[j]? = some w → j ≠ i → w.key = k →
    w.finished = true

variable [DecidableEq κ]

/-- A value changes, and a writer is started for it. -/
def change (s : WriteBehind κ α) (k : κ) (v : α) : WriteBehind κ α :=
  { s with
    live := Function.update s.live k (some v)
    writers := s.writers ++ [⟨k, false⟩] }

/-- A writer writes its snapshot `v`, and has finished. -/
def finish (s : WriteBehind κ α) (i : ℕ) (w : BackgroundWriter κ) (v : α) :
    WriteBehind κ α :=
  { s with
    saved := Function.update s.saved w.key (some v)
    writers := s.writers.set i { w with finished := true } }

@[simp] theorem live_change (s : WriteBehind κ α) (k : κ) (v : α) :
    (s.change k v).live = Function.update s.live k (some v) := rfl

@[simp] theorem writers_change (s : WriteBehind κ α) (k : κ) (v : α) :
    (s.change k v).writers = s.writers ++ [⟨k, false⟩] := rfl

@[simp] theorem saved_finish (s : WriteBehind κ α) (i : ℕ) (w : BackgroundWriter κ) (v : α) :
    (s.finish i w v).saved = Function.update s.saved w.key (some v) := rfl

@[simp] theorem writers_finish (s : WriteBehind κ α) (i : ℕ) (w : BackgroundWriter κ) (v : α) :
    (s.finish i w v).writers = s.writers.set i { w with finished := true } := rfl

variable {s : WriteBehind κ α} {i : ℕ} {w : BackgroundWriter κ}

/-- A change leaves its own key unsettled, and the others as they are. -/
theorem Converged.change (hs : s.Converged) (k : κ) (v : α) : (s.change k v).Converged := by
  rintro k' v' hlive ⟨⟨w, hw, hkey⟩, hfinished⟩
  rw [writers_change] at hw hfinished
  have hne : k' ≠ k := by
    rintro rfl
    exact Bool.noConfusion
      (hfinished ⟨k', false⟩ (List.mem_append_right _ List.mem_cons_self) rfl)
  rw [live_change, Function.update_of_ne hne] at hlive
  refine hs k' v' hlive ⟨⟨w, ?_, hkey⟩, fun w hw => hfinished w (List.mem_append_left _ hw)⟩
  refine (List.mem_append.mp hw).resolve_right fun hmem => hne ?_
  rw [← hkey, List.mem_singleton.mp hmem]

/-- A writer that finishes settles its key where it is the last. -/
theorem settled_finish (hw : s.writers[i]? = some w) (v : α) (k : κ) :
    (s.finish i w v).Settled k ↔ if k = w.key then s.LastOf i k else s.Settled k := by
  have hlt := (List.getElem?_eq_some_iff.mp hw).1
  have hother : ∀ {j w'}, i ≠ j → ((s.finish i w v).writers[j]? = some w'
      ↔ s.writers[j]? = some w') := fun hij => by
    rw [writers_finish, List.getElem?_set_ne hij]
  have hself : (s.finish i w v).writers[i]? = some { w with finished := true } := by
    rw [writers_finish, List.getElem?_set_self hlt]
  split_ifs with hk
  · subst hk
    constructor
    · intro h j w' hj hne hkey
      exact h.2 w' (List.mem_iff_getElem?.mpr ⟨j, (hother hne.symm).mpr hj⟩) hkey
    · refine fun h => ⟨⟨_, List.mem_iff_getElem?.mpr ⟨i, hself⟩, rfl⟩, fun w' hw' hkey => ?_⟩
      obtain ⟨j, hj⟩ := List.mem_iff_getElem?.mp hw'
      by_cases hij : i = j
      · subst hij
        rw [hself] at hj
        obtain rfl := Option.some.inj hj
        rfl
      · exact h j w' ((hother hij).mp hj) (Ne.symm hij) hkey
  · -- the writers of another key are the same
    have hmem : ∀ w', w'.key = k → (w' ∈ (s.finish i w v).writers ↔ w' ∈ s.writers) := by
      intro w' hkey
      rw [List.mem_iff_getElem?, List.mem_iff_getElem?]
      refine exists_congr fun j => ?_
      by_cases hij : i = j
      · subst hij
        rw [hself, hw]
        refine iff_of_false (fun heq => hk ?_) (fun heq => hk ?_)
        · rw [← hkey, ← Option.some.inj heq]
        · rw [← hkey, ← Option.some.inj heq]
      · exact hother hij
    refine and_congr (exists_congr fun w' => and_congr_left fun hkey => hmem w' hkey)
      (forall_congr' fun w' => ⟨fun h hw' hkey => h ((hmem w' hkey).mpr hw') hkey,
        fun h hw' hkey => h ((hmem w' hkey).mp hw') hkey⟩)

/-- **The writer that finishes last decides.** -/
theorem converged_finish_iff (hs : s.Converged) (hw : s.writers[i]? = some w) (v : α) :
    (s.finish i w v).Converged ↔ (s.LastOf i w.key → ∀ v', s.live w.key = some v' → v = v') := by
  constructor
  · intro h hlast v' hlive
    have hsettled : (s.finish i w v).Settled w.key := by
      rw [settled_finish hw, if_pos rfl]
      exact hlast
    have hsaved := h w.key v' hlive hsettled
    rw [saved_finish, Function.update_self] at hsaved
    exact Option.some.inj hsaved
  · intro h k v' hlive hsettled
    rw [settled_finish hw] at hsettled
    rw [saved_finish]
    by_cases hk : k = w.key
    · subst hk
      rw [Function.update_self, h (by rwa [if_pos rfl] at hsettled) v' hlive]
    · rw [if_neg hk] at hsettled
      rw [Function.update_of_ne hk]
      exact hs k v' hlive hsettled

end WriteBehind
