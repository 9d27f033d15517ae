import Mathlib.Data.List.Basic

/-!
# Machines and their runs

A machine is a partial step function over labels: a label that names a
step the machine cannot take now is refused with `none`. A run is a list
of labels, so an interleaving of several parties is a list of their
labels in the order in which they happened, and `run` replays it.

Two things are asked of a run. `Along R` asks a relation of every step
it takes – of the state the step starts from, its label and the state it
ends in – and a property of every state reached is the case in which `R`
reads only the last of the three. Everything is proved of a run through
one of two rules: an invariant is carried along (`run_invariant`), and
two relations that agree on every step from a state of an invariant
agree along every run from one (`along_iff_of_step`,
`along_target_iff`, `run_decided`). The second is what turns “the step goes wrong
exactly when” into “the run goes wrong exactly when”. Where what a machine
should do is another machine on the same states, `runs_agree_iff` says
when their runs cannot be told apart.
-/

/-- **A machine**: a partial step function over labels. -/
structure Machine (σ ι : Type*) where
  /-- The state a label leads to, or `none` where it is not enabled. -/
  step : σ → ι → Option σ

namespace Machine

variable {σ ι : Type*} (M : Machine σ ι)

/-- Replay a list of labels. -/
def run : σ → List ι → Option σ
  | s, [] => some s
  | s, l :: ls => (M.step s l).bind (fun t => run t ls)

/-- **Every step of the run meets `R`.** A label that is refused ends the
run, and nothing is asked from there on. -/
def Along (R : σ → ι → σ → Prop) : σ → List ι → Prop
  | _, [] => True
  | s, l :: ls => ∀ t, M.step s l = some t → R s l t ∧ Along R t ls

variable {M}

@[simp] theorem run_nil (s : σ) : M.run s [] = some s := rfl

@[simp] theorem run_cons (s : σ) (l : ι) (ls : List ι) :
    M.run s (l :: ls) = (M.step s l).bind (fun t => M.run t ls) := rfl

@[simp] theorem along_nil (R : σ → ι → σ → Prop) (s : σ) :
    M.Along R s [] := trivial

theorem along_cons {R : σ → ι → σ → Prop} {s : σ} {l : ι} {ls : List ι} :
    M.Along R s (l :: ls)
      ↔ ∀ t, M.step s l = some t → R s l t ∧ M.Along R t ls := Iff.rfl

/-- A run along a step that can be taken. -/
theorem along_cons_some {R : σ → ι → σ → Prop} {s t : σ} {l : ι} {ls : List ι}
    (ht : M.step s l = some t) :
    M.Along R s (l :: ls) ↔ R s l t ∧ M.Along R t ls :=
  ⟨fun h => h t ht, fun h _ hu => Option.some.inj (ht.symm.trans hu) ▸ h⟩

/-- What follows from what holds along a run holds along it. -/
theorem Along.mono {R R' : σ → ι → σ → Prop} {s : σ} {ls : List ι} (h : M.Along R s ls)
    (hR : ∀ s l t, R s l t → R' s l t) : M.Along R' s ls := by
  induction ls generalizing s with
  | nil => trivial
  | cons l ls ih => exact fun t ht => ⟨hR s l t (h t ht).1, ih (h t ht).2⟩

/-- What is asked of a run can be decided by replaying it. -/
instance decidableAlong (R : σ → ι → σ → Prop) [∀ s l t, Decidable (R s l t)] :
    ∀ (s : σ) (ls : List ι), Decidable (M.Along R s ls)
  | _, [] => isTrue trivial
  | s, l :: ls =>
    match hstep : M.step s l with
    | none => isTrue fun t ht => by rw [hstep] at ht; cases ht
    | some t =>
      have := decidableAlong R t ls
      decidable_of_iff (R s l t ∧ M.Along R t ls)
        ⟨fun h u hu => by rw [hstep] at hu; exact Option.some.inj hu ▸ h,
          fun h => h t hstep⟩

theorem run_append (s : σ) (ks ls : List ι) :
    M.run s (ks ++ ls) = (M.run s ks).bind (fun t => M.run t ls) := by
  induction ks generalizing s with
  | nil => rfl
  | cons k ks ih =>
    rw [List.cons_append, run_cons, run_cons, Option.bind_assoc]
    exact congrArg _ (funext fun t => ih t)

/-- A run splits at any of its prefixes. -/
theorem run_append_some {s u : σ} {ks ls : List ι} :
    M.run s (ks ++ ls) = some u
      ↔ ∃ t, M.run s ks = some t ∧ M.run t ls = some u := by
  rw [run_append, Option.bind_eq_some_iff]

/-- The last step of a run. -/
theorem run_snoc {s u : σ} {ks : List ι} {l : ι} :
    M.run s (ks ++ [l]) = some u ↔ ∃ t, M.run s ks = some t ∧ M.step t l = some u := by
  simp only [run_append_some, run_cons, run_nil, Option.bind_fun_some]

/-- What holds along a run holds along its prefixes, and from the state a
prefix reaches it holds along the rest. -/
theorem along_append {R : σ → ι → σ → Prop} {s : σ} {ks ls : List ι} :
    M.Along R s (ks ++ ls)
      ↔ M.Along R s ks ∧ ∀ t, M.run s ks = some t → M.Along R t ls := by
  induction ks generalizing s with
  | nil => exact ⟨fun h => ⟨trivial, fun t ht => Option.some.inj ht ▸ h⟩,
      fun h => h.2 s rfl⟩
  | cons k ks ih =>
    rw [List.cons_append, along_cons, along_cons]
    constructor
    · intro h
      refine ⟨fun t ht => ⟨(h t ht).1, (ih.mp (h t ht).2).1⟩, fun u hu => ?_⟩
      obtain ⟨t, ht, hu⟩ := Option.bind_eq_some_iff.mp hu
      exact (ih.mp (h t ht).2).2 u hu
    · rintro ⟨h, h'⟩ t ht
      refine ⟨(h t ht).1, ih.mpr ⟨(h t ht).2, fun u hu => h' u ?_⟩⟩
      rw [run_cons, ht]
      exact hu

/-- The step taken at a position of a run meets what holds along it. -/
theorem along_step {R : σ → ι → σ → Prop} {s t u : σ} {ks ls : List ι} {l : ι}
    (h : M.Along R s (ks ++ l :: ls)) (hks : M.run s ks = some t)
    (hl : M.step t l = some u) : R t l u :=
  (along_cons.mp ((along_append.mp h).2 t hks) u hl).1

/-! ## Invariants -/

section Invariant

variable {J : σ → Prop} {C : σ → ι → σ → Prop}

/-- **The invariant rule**: what a step that meets `C` preserves, a run
whose steps all meet `C` preserves. -/
theorem run_invariant
    (hstep : ∀ s l t, J s → M.step s l = some t → C s l t → J t)
    {s t : σ} {ls : List ι} (hs : J s) (hC : M.Along C s ls)
    (hrun : M.run s ls = some t) : J t := by
  induction ls generalizing s with
  | nil => exact Option.some.inj hrun ▸ hs
  | cons l ls ih =>
    obtain ⟨u, hu, hrun⟩ := Option.bind_eq_some_iff.mp hrun
    exact ih (hstep s l u hs hu (hC u hu).1) (hC u hu).2 hrun

/-- The invariant rule without a side condition. -/
theorem run_invariant'
    (hstep : ∀ s l t, J s → M.step s l = some t → J t)
    {s t : σ} {ls : List ι} (hs : J s) (hrun : M.run s ls = some t) : J t := by
  induction ls generalizing s with
  | nil => exact Option.some.inj hrun ▸ hs
  | cons l ls ih =>
    obtain ⟨u, hu, hrun⟩ := Option.bind_eq_some_iff.mp hrun
    exact ih (hstep s l u hs hu) hrun

/-- What every step that meets `C` from a state of the invariant
establishes, a run whose steps all meet `C` establishes at every step. -/
theorem along_of_step {R : σ → ι → σ → Prop}
    (hJ : ∀ s l t, J s → M.step s l = some t → C s l t → J t)
    (hR : ∀ s l t, J s → M.step s l = some t → C s l t → R s l t)
    {s : σ} {ls : List ι} (hs : J s) (hC : M.Along C s ls) :
    M.Along R s ls := by
  induction ls generalizing s with
  | nil => trivial
  | cons l ls ih =>
    exact fun t ht => ⟨hR s l t hs ht (hC t ht).1,
      ih (hJ s l t hs ht (hC t ht).1) (hC t ht).2⟩

/-- The same without a side condition. -/
theorem along_of_step' {R : σ → ι → σ → Prop}
    (hJ : ∀ s l t, J s → M.step s l = some t → J t)
    (hR : ∀ s l t, J s → M.step s l = some t → R s l t)
    {s : σ} {ls : List ι} (hs : J s) : M.Along R s ls := by
  induction ls generalizing s with
  | nil => trivial
  | cons l ls ih => exact fun t ht => ⟨hR s l t hs ht, ih (hJ s l t hs ht)⟩

/-- **Two relations that agree on the steps of an invariant agree along
its runs.** -/
theorem along_iff_of_step {R R' : σ → ι → σ → Prop}
    (hJ : ∀ s l t, J s → M.step s l = some t → J t)
    (hR : ∀ s l t, J s → M.step s l = some t → (R s l t ↔ R' s l t))
    {s : σ} {ls : List ι} (hs : J s) :
    M.Along R s ls ↔ M.Along R' s ls := by
  induction ls generalizing s with
  | nil => exact Iff.rfl
  | cons l ls ih =>
    rw [along_cons, along_cons]
    exact forall_congr' fun t => forall_congr' fun ht =>
      and_congr (hR s l t hs ht) (ih (hJ s l t hs ht))

/-- **A property of states, decided step by step**: where a step from a
state with `P` ends in a state with `P` exactly when it meets `C`, a run
from a state with `P` stays in `P` exactly when its steps all meet
`C`. -/
theorem along_target_iff {P : σ → Prop}
    (hJ : ∀ s l t, J s → M.step s l = some t → J t)
    (hP : ∀ s l t, J s → P s → M.step s l = some t → (P t ↔ C s l t))
    {s : σ} {ls : List ι} (hs : J s) (hPs : P s) :
    M.Along (fun _ _ t => P t) s ls ↔ M.Along C s ls := by
  induction ls generalizing s with
  | nil => exact Iff.rfl
  | cons l ls ih =>
    rw [along_cons, along_cons]
    refine forall_congr' fun t => forall_congr' fun ht => ?_
    constructor
    · rintro ⟨hPt, h⟩
      exact ⟨(hP s l t hs hPs ht).mp hPt, (ih (hJ s l t hs ht) hPt).mp h⟩
    · rintro ⟨hC, h⟩
      have hPt := (hP s l t hs hPs ht).mpr hC
      exact ⟨hPt, (ih (hJ s l t hs ht) hPt).mpr h⟩

/-- **A run that is decided once**: from a state with `G`, a step that meets
`S` keeps `G` and one that does not leads to `B`, and `B` is never left.
Then a run has kept `G` exactly when its steps have all met `S`. -/
theorem run_decided {G B : σ → Prop} {S : σ → ι → σ → Prop}
    (hgood : ∀ s l t, G s → M.step s l = some t → C s l t → S s l t → G t)
    (hbad : ∀ s l t, G s → M.step s l = some t → C s l t → ¬ S s l t → B t)
    (hstuck : ∀ s l t, B s → M.step s l = some t → B t)
    {s u : σ} {ls : List ι} (hs : G s) (hC : M.Along C s ls) (hrun : M.run s ls = some u) :
    (G u ∧ M.Along S s ls) ∨ (B u ∧ ¬ M.Along S s ls) := by
  induction ls generalizing s with
  | nil => exact .inl ⟨Option.some.inj hrun ▸ hs, trivial⟩
  | cons l ls ih =>
    obtain ⟨t, ht, hrun⟩ := Option.bind_eq_some_iff.mp hrun
    by_cases hS : S s l t
    · rcases ih (hgood s l t hs ht (hC t ht).1 hS) (hC t ht).2 hrun with ⟨hu, h⟩ | ⟨hu, h⟩
      · refine .inl ⟨hu, fun v hv => ?_⟩
        obtain rfl := Option.some.inj (ht.symm.trans hv)
        exact ⟨hS, h⟩
      · exact .inr ⟨hu, fun hall => h (hall t ht).2⟩
    · exact .inr ⟨run_invariant' hstuck (hbad s l t hs ht (hC t ht).1 hS) hrun,
        fun hall => hS (hall t ht).1⟩

end Invariant

/-! ## Every state a run reaches -/

/-- **Every state the run reaches meets `P`**, its first one included. -/
def Throughout (M : Machine σ ι) (P : σ → Prop) (s : σ) (ls : List ι) : Prop :=
  ∀ ks t, ks <+: ls → M.run s ks = some t → P t

/-- Asking `P` of every state reached is asking it of the first one and
of the state each step ends in. -/
theorem throughout_iff_along {P : σ → Prop} {s : σ} {ls : List ι} :
    M.Throughout P s ls ↔ P s ∧ M.Along (fun _ _ t => P t) s ls := by
  induction ls generalizing s with
  | nil =>
    constructor
    · exact fun h => ⟨h [] s List.prefix_rfl rfl, trivial⟩
    · rintro ⟨hs, -⟩ ks t hks ht
      rw [List.prefix_nil.mp hks] at ht
      exact Option.some.inj ht ▸ hs
  | cons l ls ih =>
    constructor
    · intro h
      refine ⟨h [] s List.nil_prefix rfl, fun t ht => ?_⟩
      have hrest : M.Throughout P t ls := fun ks u hks hu =>
        h (l :: ks) u (List.cons_prefix_cons.mpr ⟨rfl, hks⟩)
          (by rw [run_cons, ht]; exact hu)
      exact ⟨hrest [] t List.nil_prefix rfl, (ih.mp hrest).2⟩
    · rintro ⟨hs, h⟩ ks u hks hu
      cases ks with
      | nil => exact Option.some.inj hu ▸ hs
      | cons k ks =>
        obtain ⟨rfl, hks'⟩ := List.cons_prefix_cons.mp hks
        obtain ⟨t, ht, hu⟩ := Option.bind_eq_some_iff.mp hu
        exact ih.mpr (h t ht) ks u hks' hu

/-- **A relation between states, decided step by step**: where `R` is
reflexive and transitive, it holds between any state of a run and any
later one exactly when it holds across every step. -/
theorem along_between_iff {R : σ → σ → Prop} (hrefl : ∀ s, R s s)
    (htrans : ∀ s t u, R s t → R t u → R s u) {s : σ} {ls : List ι} :
    M.Along (fun s _ t => R s t) s ls
      ↔ ∀ ks ms t u, ks ++ ms <+: ls → M.run s ks = some t →
          M.run t ms = some u → R t u := by
  constructor
  · rintro h ks ms t u ⟨rest, rfl⟩ hks hms
    rw [List.append_assoc, along_append] at h
    replace h := (along_append.mp (h.2 t hks)).1
    clear hks
    induction ms generalizing t with
    | nil => exact Option.some.inj hms ▸ hrefl t
    | cons l ms ih =>
      obtain ⟨v, hv, hms⟩ := Option.bind_eq_some_iff.mp hms
      exact htrans t v u (h v hv).1 (ih v hms (h v hv).2)
  · intro h
    induction ls generalizing s with
    | nil => trivial
    | cons l ls ih =>
      refine fun t ht => ⟨h [] [l] s t ⟨ls, rfl⟩ rfl ?_, ih ?_⟩
      · rw [run_cons, ht]; rfl
      · intro ks ms u v hpre hks hms
        refine h (l :: ks) ms u v ?_ ?_ hms
        · exact List.cons_prefix_cons.mpr ⟨rfl, hpre⟩
        · rw [run_cons, ht]; exact hks

/-! ## Two machines on one state -/

/-- **Two machines that agree until they differ**: where they take the same
steps under `C` and otherwise steps that `f` tells apart, all their runs
look the same through `f` exactly when every step of the first meets
`C`. -/
theorem runs_agree_iff {N : Machine σ ι} {β : Type*} (f : σ → β) {C : σ → ι → Prop}
    (hnone : ∀ s l, M.step s l = none → N.step s l = none)
    (hsame : ∀ s l, C s l → N.step s l = M.step s l)
    (hdiff : ∀ s l t, M.step s l = some t → ¬ C s l → ∃ u, N.step s l = some u ∧ f u ≠ f t)
    {s : σ} {ls : List ι} :
    (∀ ks, ks <+: ls → (M.run s ks).map f = (N.run s ks).map f)
      ↔ M.Along (fun s l _ => C s l) s ls := by
  induction ls generalizing s with
  | nil =>
    refine iff_of_true (fun ks hks => ?_) trivial
    rw [List.prefix_nil.mp hks]
    rfl
  | cons l ls ih =>
    rw [along_cons]
    constructor
    · intro h t ht
      -- else the runs of one step would differ already
      have hl : C s l := by
        by_contra hl
        obtain ⟨u, hu, hne⟩ := hdiff s l t ht hl
        have hone := h [l] (List.cons_prefix_cons.mpr ⟨rfl, List.nil_prefix⟩)
        rw [run_cons, run_cons, ht, hu] at hone
        exact hne (Option.some.inj hone).symm
      refine ⟨hl, ih.mp fun ks hks => ?_⟩
      have hrest := h (l :: ks) (List.cons_prefix_cons.mpr ⟨rfl, hks⟩)
      rwa [run_cons, run_cons, hsame s l hl, ht] at hrest
    · intro h ks hks
      cases ks with
      | nil => rfl
      | cons k ks =>
        obtain ⟨rfl, hks'⟩ := List.cons_prefix_cons.mp hks
        rw [run_cons, run_cons]
        cases ht : M.step s k with
        | none => rw [hnone s k ht]; rfl
        | some t =>
          rw [hsame s k (h t ht).1, ht]
          exact ih.mpr (h t ht).2 ks hks'

end Machine
