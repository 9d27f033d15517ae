import Mathlib.Data.List.Nodup
import Mathlib.Order.Lattice

/-!
# Sampling a sequence

Two observers look for the first element of a sequence in which something moves.
One walks through the sequence. The other looks now and then, in order, and may
look past the sequence too: at what is not of it, or at nothing.

Both find the same element exactly when the second looks at the first one that
moves, and all that it has found to move before that is of the sequence
(`sees_iff_watched`).
-/

namespace Sampling

variable {α β γ κ : Type*} [LinearOrder κ]

/-- The first element that moves, with what it moves to. -/
def firstMove (f : α → Option γ) (xs : List α) : Option (α × γ) :=
  xs.findSome? fun x => (f x).map (x, ·)

theorem firstMove_eq_none_iff {f : α → Option γ} {xs : List α} :
    firstMove f xs = none ↔ ∀ x ∈ xs, f x = none := by
  simp [firstMove]

theorem firstMove_eq_some_iff {f : α → Option γ} {xs : List α} {x : α} {c : γ} :
    firstMove f xs = some (x, c)
      ↔ ∃ as bs, xs = as ++ x :: bs ∧ f x = some c ∧ ∀ y ∈ as, f y = none := by
  rw [firstMove, List.findSome?_eq_some_iff]
  constructor
  · rintro ⟨as, y, bs, rfl, hy, has⟩
    obtain ⟨c', hc, hpair⟩ := Option.map_eq_some_iff.mp hy
    cases hpair
    exact ⟨as, bs, rfl, hc, fun z hz => Option.map_eq_none_iff.mp (has z hz)⟩
  · rintro ⟨as, bs, rfl, hc, has⟩
    refine ⟨as, x, bs, rfl, by rw [hc, Option.map_some], fun z hz => ?_⟩
    rw [has z hz, Option.map_none]

/-- In an order by a key, what moves first has the least key of all that moves. -/
theorem key_le_of_firstMove {f : β → Option γ} {key : β → κ} {ys : List β}
    (hys : ys.Pairwise fun y z => key y < key z) {y z : β} {c : γ}
    (hfirst : firstMove f ys = some (y, c)) (hz : z ∈ ys) (hmoves : (f z).isSome) :
    key y ≤ key z := by
  obtain ⟨as, bs, rfl, -, has⟩ := firstMove_eq_some_iff.mp hfirst
  rcases List.mem_append.mp hz with hz | hz
  · rw [has z hz] at hmoves
    cases hmoves
  · rcases List.mem_cons.mp hz with rfl | hz
    · exact le_rfl
    · exact ((List.pairwise_cons.mp (List.pairwise_append.mp hys).2.1).1 z hz).le

/-- Keys in order tell elements apart. -/
theorem eq_of_key_eq {key : β → κ} {ys : List β} (hys : ys.Pairwise fun y z => key y < key z)
    {y z : β} (hy : y ∈ ys) (hz : z ∈ ys) (h : key y = key z) : y = z := by
  have hnodup : (ys.map key).Nodup := List.pairwise_map.mpr (hys.imp fun hlt => hlt.ne)
  exact List.inj_on_of_nodup_map hnodup hy hz h

section Observers

variable (at? : α → Option β) (f : α → Option γ) (g : β → Option γ) (looks : List α)
  (ys : List β)

/-- Both find nothing, or the look that finds something first is at the element
that moves first. -/
def Sees : Prop :=
  match firstMove f looks, firstMove g ys with
  | none, none => True
  | some (look, _), some (y, _) => at? look = some y
  | _, _ => False

/-- The look is at the element that moves first. -/
def AtFirst (look : α) : Prop := ∃ y c, firstMove g ys = some (y, c) ∧ at? look = some y

/-- **The first move is watched**: there is a look at it, and no look before finds
a move in what is not of the sequence. -/
structure Watched : Prop where
  seen : (firstMove g ys).isSome → ∃ look ∈ looks, AtFirst at? g ys look
  fresh : ∀ before look after, looks = before ++ look :: after → (f look).isSome →
    (∀ y ∈ at? look, y ∉ ys) → ∃ earlier ∈ before, AtFirst at? g ys earlier

variable {at? f g looks ys}

/-- A look at the first move finds it. -/
theorem isSome_of_atFirst (hmoves : ∀ look ∈ looks, ∀ y ∈ at? look, y ∈ ys → f look = g y)
    {look : α} (hlook : look ∈ looks) (h : AtFirst at? g ys look) : (f look).isSome := by
  obtain ⟨y, c, hfirst, hat⟩ := h
  obtain ⟨as, bs, rfl, hc, -⟩ := firstMove_eq_some_iff.mp hfirst
  rw [hmoves look hlook y hat (by simp), hc]
  rfl

/-- Where they see the same, it is watched. -/
theorem Sees.watched (h : Sees at? f g looks ys) : Watched at? f g looks ys := by
  unfold Sees at h
  cases hlook : firstMove f looks with
  | none =>
    cases hfirst : firstMove g ys with
    | some first => rw [hlook, hfirst] at h; exact h.elim
    | none =>
      refine ⟨fun hsome => absurd hsome (by simp [hfirst]), ?_⟩
      intro before look after hsplit hmove _
      rw [firstMove_eq_none_iff.mp hlook look (by simp [hsplit])] at hmove
      cases hmove
  | some found =>
    obtain ⟨look, c⟩ := found
    cases hfirst : firstMove g ys with
    | none => rw [hlook, hfirst] at h; exact h.elim
    | some first =>
      obtain ⟨y, c'⟩ := first
      rw [hlook, hfirst] at h
      have hat : AtFirst at? g ys look := ⟨y, c', hfirst, h⟩
      obtain ⟨as, bs, rfl, -, has⟩ := firstMove_eq_some_iff.mp hlook
      refine ⟨fun _ => ⟨look, by simp, hat⟩, fun before other after hsplit hother hstale => ?_⟩
      -- what moves and is stale is not the first look, so it comes after it
      have hsame : other ≠ look := by
        rintro rfl
        obtain ⟨cs, ds, rfl, -, -⟩ := firstMove_eq_some_iff.mp hfirst
        exact hstale y h (by simp)
      rcases List.append_eq_append_iff.mp hsplit with ⟨cs, rfl, hcs⟩ | ⟨cs, rfl, hcs⟩
      · cases cs with
        | nil => exact absurd (List.cons.inj hcs).1.symm hsame
        | cons d cs =>
          obtain ⟨rfl, -⟩ := List.cons.inj hcs
          exact ⟨look, by simp, hat⟩
      · cases cs with
        | nil => exact absurd (List.cons.inj hcs).1 hsame
        | cons d cs =>
          obtain ⟨rfl, -⟩ := List.cons.inj hcs
          rw [has other (by simp)] at hother
          cases hother

/-- **Both see the same exactly where the first move is watched.** -/
theorem sees_iff_watched (key : β → κ) (hys : ys.Pairwise fun y z => key y < key z)
    (hlooks : looks.Pairwise fun look next => ∀ y ∈ at? look, ∀ z ∈ at? next, key y ≤ key z)
    (hmoves : ∀ look ∈ looks, ∀ y ∈ at? look, y ∈ ys → f look = g y) :
    Sees at? f g looks ys ↔ Watched at? f g looks ys := by
  refine ⟨Sees.watched, fun h => ?_⟩
  unfold Sees
  cases hfirst : firstMove g ys with
  | none =>
    have hnone : firstMove f looks = none := firstMove_eq_none_iff.mpr fun look hlook => by
      by_contra hmove
      obtain ⟨before, after, hsplit⟩ := List.append_of_mem hlook
      obtain ⟨-, -, y, c, hsome, -⟩ := h.fresh before look after hsplit
        (Option.isSome_iff_ne_none.mpr hmove) fun y hy hmem => by
          rw [hmoves look hlook y hy hmem] at hmove
          exact hmove (firstMove_eq_none_iff.mp hfirst y hmem)
      cases hfirst.symm.trans hsome
    rw [hnone]
    trivial
  | some first =>
    obtain ⟨y, c⟩ := first
    obtain ⟨seen, hseen, hatSeen⟩ := h.seen (by rw [hfirst]; rfl)
    have hmoveSeen := isSome_of_atFirst hmoves hseen hatSeen
    have haty : at? seen = some y := by
      obtain ⟨y', c', hfirst', hat⟩ := hatSeen
      cases hfirst.symm.trans hfirst'
      exact hat
    cases hlook : firstMove f looks with
    | none =>
      rw [firstMove_eq_none_iff.mp hlook seen hseen] at hmoveSeen
      cases hmoveSeen
    | some found =>
      obtain ⟨look, c'⟩ := found
      obtain ⟨as, bs, rfl, hc', has⟩ := firstMove_eq_some_iff.mp hlook
      have hmove : (f look).isSome := by rw [hc']; rfl
      have hnotBefore : ∀ other ∈ as, ¬ AtFirst at? g ys other := fun other hother hat => by
        have hsome := isSome_of_atFirst hmoves (List.mem_append_left _ hother) hat
        rw [has other hother] at hsome
        cases hsome
      show at? look = some y
      by_cases hstale : ∀ z ∈ at? look, z ∉ ys
      · obtain ⟨earlier, hearlier, hat⟩ := h.fresh as look bs rfl hmove hstale
        exact absurd hat (hnotBefore earlier hearlier)
      · push Not at hstale
        obtain ⟨z, hz, hmem⟩ := hstale
        have hle : key y ≤ key z := key_le_of_firstMove hys hfirst hmem
          (hmoves look (by simp) z hz hmem ▸ hmove)
        -- the look at the first move is this one, or comes after it
        rcases List.mem_append.mp hseen with hin | hin
        · exact absurd hatSeen (hnotBefore seen hin)
        rcases List.mem_cons.mp hin with rfl | hin
        · exact haty
        · have hge : key z ≤ key y := (List.pairwise_cons.mp
            (List.pairwise_append.mp hlooks).2.1).1 seen hin z hz y haty
          have hy : y ∈ ys := by
            obtain ⟨cs, ds, rfl, -, -⟩ := firstMove_eq_some_iff.mp hfirst
            simp
          rw [eq_of_key_eq hys hy hmem (le_antisymm hle hge)]
          exact hz

end Observers

end Sampling
