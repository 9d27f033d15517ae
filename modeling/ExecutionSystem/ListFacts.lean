import Mathlib.Algebra.BigOperators.Group.List.Basic
import Mathlib.Data.List.Nodup
import Mathlib.Data.List.Perm.Basic
import Mathlib.Order.Lattice

/-!
# Lists as stores

A store that is a list is read by position, by a filter or through a sum,
and written by setting, modifying or appending one element. These are the
facts about such a write seen through such a read.
-/

namespace List

variable {α β : Type*}

/-- What is left without the later of equal elements is left once. -/
theorem nodup_eraseDups [BEq α] [LawfulBEq α] (xs : List α) : xs.eraseDups.Nodup := by
  induction h : xs.length using Nat.strongRecOn generalizing xs with
  | ind n ih =>
    cases xs with
    | nil => exact nodup_nil
    | cons x xs =>
      subst h
      rw [eraseDups_cons, nodup_cons]
      refine ⟨fun hmem => ?_, ih _ ?_ _ rfl⟩
      · rw [mem_eraseDups] at hmem
        simp at hmem
      · exact Nat.lt_succ_of_le (length_filter_le ..)

/-- The element added at the end. -/
theorem getElem?_append_new {xs : List α} {n : ℕ} (x : α) (h : xs.length = n) :
    (xs ++ [x])[n]? = some x := by
  subst h
  simp

/-- What stands in a list that has grown by one element. -/
theorem getElem?_append_cases {xs : List α} {x y : α} {i : ℕ}
    (h : (xs ++ [x])[i]? = some y) : xs[i]? = some y ∨ i = xs.length ∧ y = x := by
  rw [getElem?_append] at h
  split_ifs at h with hlt
  · exact .inl h
  · obtain ⟨hi, hy⟩ := getElem?_eq_some_iff.mp h
    rw [getElem_singleton] at hy
    exact .inr ⟨by simp only [length_singleton] at hi; omega, hy.symm⟩

/-- The one position past the end. -/
theorem eq_of_not_lt {i n : ℕ} (h : ¬ i < n) (h' : i - n < 1) : i = n := by
  omega

theorem getElem?_modify_iff {xs : List α} {i j : ℕ} {f : α → α} {y : α} :
    (xs.modify i f)[j]? = some y
      ↔ ∃ x, xs[j]? = some x ∧ y = if i = j then f x else x := by
  rw [getElem?_modify, Option.map_eq_map, Option.map_eq_some_iff]
  exact exists_congr fun x => and_congr_right fun _ => eq_comm

/-- An element of a modified list is an old one or a modified one. -/
theorem mem_of_mem_modify {xs : List α} {i : ℕ} {f : α → α} {y : α}
    (h : y ∈ xs.modify i f) : y ∈ xs ∨ ∃ x, xs[i]? = some x ∧ y = f x := by
  obtain ⟨j, hj⟩ := mem_iff_getElem?.mp h
  obtain ⟨x, hx, rfl⟩ := getElem?_modify_iff.mp hj
  split_ifs with hi
  · exact .inr ⟨x, hi ▸ hx, rfl⟩
  · exact .inl (mem_of_getElem? hx)

/-- Modifying one element without changing whether it passes a test. -/
theorem any_modify_eq {p : α → Bool} {xs : List α} {i : ℕ} {f : α → α}
    (h : ∀ x, xs[i]? = some x → p (f x) = p x) : (xs.modify i f).any p = xs.any p := by
  induction xs generalizing i with
  | nil => cases i <;> rfl
  | cons x xs ih =>
    cases i with
    | zero => rw [modify_zero_cons, any_cons, any_cons, h x rfl]
    | succ i => rw [modify_succ_cons, any_cons, any_cons, ih h]

/-- Modifying one element without changing what is seen of it. -/
theorem map_modify_eq {g : α → β} {xs : List α} {i : ℕ} {f : α → α}
    (h : ∀ x, g (f x) = g x) : (xs.modify i f).map g = xs.map g := by
  refine ext_getElem? fun j => ?_
  rw [getElem?_map, getElem?_map, getElem?_modify]
  cases xs[j]? with
  | none => rfl
  | some x =>
    show some (g (if i = j then f x else x)) = some (g x)
    split_ifs
    · rw [h]
    · rfl

/-- Setting one element to one that looks the same. -/
theorem map_set_eq {g : α → β} {xs : List α} {i : ℕ} {a b : α} (h : xs[i]? = some a)
    (hg : g b = g a) : (xs.set i b).map g = xs.map g := by
  rw [map_set, hg]
  obtain ⟨hlt, rfl⟩ := getElem?_eq_some_iff.mp h
  rw [← getElem_map g (h := (length_map g).symm ▸ hlt), set_getElem_self]

/-- Setting one element, seen through `filterMap`: what the old element
contributed is exchanged for what the new one does. -/
theorem filterMap_set_perm (f : α → Option β) {xs : List α}
    {i : ℕ} {a : α} (b : α) (h : xs[i]? = some a) :
    ((f a).toList ++ (xs.set i b).filterMap f).Perm
      ((f b).toList ++ xs.filterMap f) := by
  induction xs generalizing i with
  | nil => cases h
  | cons x xs ih =>
    cases i with
    | zero =>
      obtain rfl := Option.some.inj h
      cases hx : f x <;> cases hb : f b <;> simp [hx, hb, Perm.swap]
    | succ i =>
      have hperm : ((f a).toList ++ (xs.set i b).filterMap f).Perm _ := ih h
      cases hx : f x with
      | none => simpa [hx] using hperm
      | some y =>
        simp only [set_cons_succ, filterMap_cons, hx]
        exact (perm_middle.trans (hperm.cons y)).trans perm_middle.symm

/-- Where a key is not repeated, one element has it. -/
theorem filter_key_eq [DecidableEq β] {f : α → β} {xs : List α} {x : α}
    (h : (xs.map f).Nodup) (hx : x ∈ xs) :
    xs.filter (fun y => f y = f x) = [x] := by
  induction xs with
  | nil => cases hx
  | cons y ys ih =>
    rw [map_cons, nodup_cons] at h
    have hne : ∀ {z}, z ∈ ys → f z ≠ f y := fun hz heq =>
      h.1 (mem_map.mpr ⟨_, hz, heq⟩)
    rcases mem_cons.mp hx with rfl | hx
    · have hnil : ys.filter (fun y => f y = f x) = [] :=
        filter_eq_nil_iff.mpr fun z hz => by simpa using hne hz
      simp [hnil]
    · have hyx := (hne hx).symm
      simpa [hyx] using ih h.2 hx

/-- Where an optional key is not repeated, it is in one place. -/
theorem index_eq_of_filterMap_nodup {f : α → Option β} {xs : List α} {i j : ℕ} {x y : α} {b : β}
    (h : (xs.filterMap f).Nodup) (hi : xs[i]? = some x) (hj : xs[j]? = some y)
    (hfx : f x = some b) (hfy : f y = some b) : i = j := by
  induction xs generalizing i j with
  | nil => cases hi
  | cons z xs ih =>
    have hmem : ∀ {k w}, xs[k]? = some w → f w = some b → b ∈ xs.filterMap f :=
      fun hk hfw => mem_filterMap.mpr ⟨_, mem_of_getElem? hk, hfw⟩
    cases i with
    | zero =>
      cases j with
      | zero => rfl
      | succ j =>
        obtain rfl := Option.some.inj hi
        rw [filterMap_cons_some hfx] at h
        exact absurd (hmem hj hfy) (nodup_cons.mp h).1
    | succ i =>
      cases j with
      | zero =>
        obtain rfl := Option.some.inj hj
        rw [filterMap_cons_some hfy] at h
        exact absurd (hmem hi hfx) (nodup_cons.mp h).1
      | succ j =>
        have hxs : (xs.filterMap f).Nodup := h.sublist ((sublist_cons_self z xs).filterMap f)
        exact congrArg (· + 1) (ih hxs hi hj)

/-- Where an optional key is not repeated, one element has it. -/
theorem eq_of_filterMap_nodup {f : α → Option β} {xs : List α} {x y : α} {b : β}
    (h : (xs.filterMap f).Nodup) (hx : x ∈ xs) (hy : y ∈ xs) (hfx : f x = some b)
    (hfy : f y = some b) : x = y := by
  obtain ⟨i, hi⟩ := mem_iff_getElem?.mp hx
  obtain ⟨j, hj⟩ := mem_iff_getElem?.mp hy
  rw [index_eq_of_filterMap_nodup h hi hj hfx hfy] at hi
  exact Option.some.inj (hi.symm.trans hj)

/-- Computations that may fail, one for each element, fail where one of
them does. -/
theorem isSome_mapM {f : α → Option β} {xs : List α} :
    (xs.mapM f).isSome = true ↔ ∀ x ∈ xs, (f x).isSome = true := by
  induction xs with
  | nil => simp
  | cons x xs ih =>
    rw [mapM_cons, forall_mem_cons, ← ih]
    cases f x <;> cases xs.mapM f <;> simp

/-- So does a fold whose steps fail, or do not, by the element alone. -/
theorem isSome_foldlM {f : β → α → Option β} {p : α → Prop}
    (h : ∀ b x, (f b x).isSome = true ↔ p x) {xs : List α} {b : β} :
    (xs.foldlM f b).isSome = true ↔ ∀ x ∈ xs, p x := by
  induction xs generalizing b with
  | nil => simp
  | cons x xs ih =>
    rw [foldlM_cons, forall_mem_cons, ← h b x]
    cases hx : f b x with
    | none => simp
    | some b' => simpa using ih

/-- Modifying one element, seen through a sum over the elements that pass a
test. -/
theorem sum_map_filter_modify {γ : Type*} [AddCommMonoid γ] (p : α → Bool)
    (w : α → γ) (f : α → α) {xs : List α} {i : ℕ} {x : α} (h : xs[i]? = some x) :
    (((xs.modify i f).filter p).map w).sum + (if p x then w x else 0)
      = ((xs.filter p).map w).sum + (if p (f x) then w (f x) else 0) := by
  induction xs generalizing i with
  | nil => cases h
  | cons y ys ih =>
    cases i with
    | zero =>
      obtain rfl := Option.some.inj h
      cases hy : p y <;> cases hf : p (f y) <;>
        simp [hy, hf, add_comm, add_left_comm]
    | succ i =>
      have hsum : (((ys.modify i f).filter p).map w).sum + _ = _ := ih h
      cases hy : p y
      · simpa [hy] using hsum
      · simp [hy, add_assoc, hsum]

/-- Modifying one element, seen through a sum over all of them. -/
theorem sum_map_modify {γ : Type*} [AddCommMonoid γ] (w : α → γ) (f : α → α)
    {xs : List α} {i : ℕ} {x : α} (h : xs[i]? = some x) :
    ((xs.modify i f).map w).sum + w x = (xs.map w).sum + w (f x) := by
  simpa using sum_map_filter_modify (fun _ => true) w f h

/-- Modifying one element so that its key stays and it does not newly pass
a test leaves no keys of passing elements but old ones. -/
theorem map_filter_modify_sublist (p : α → Bool) (key : α → β) {f : α → α}
    (hkey : ∀ x, key (f x) = key x) (hp : ∀ x, p (f x) = true → p x = true)
    (xs : List α) (i : ℕ) :
    (((xs.modify i f).filter p).map key).Sublist ((xs.filter p).map key) := by
  induction xs generalizing i with
  | nil => simp
  | cons x xs ih =>
    cases i with
    | zero =>
      rw [modify_zero_cons]
      cases hf : p (f x) with
      | true => simp [hf, hp x hf, hkey]
      | false => cases hx : p x <;> simp [hf, hx]
    | succ i =>
      rw [modify_succ_cons]
      cases hx : p x <;> simp [hx, ih i]

/-! ## Stores with a key -/

section Upsert

variable {κ : Type*} [DecidableEq κ] {key : α → κ} {k : κ} {new : α} {f : α → α}
  {xs : List α}

/-- Write under a key: the element that has it is changed in its place, and
where there is none a new one is added. -/
def upsert (key : α → κ) (k : κ) (new : α) (f : α → α) (xs : List α) : List α :=
  if ∃ x ∈ xs, key x = k then xs.map fun x => if key x = k then f x else x
  else xs ++ [new]

theorem mem_upsert {y : α} : y ∈ xs.upsert key k new f
    ↔ y ∈ xs ∧ key y ≠ k ∨ (∃ x ∈ xs, key x = k ∧ y = f x)
      ∨ (∀ x ∈ xs, key x ≠ k) ∧ y = new := by
  unfold upsert
  split_ifs with h
  · have hnone : ¬ ∀ x ∈ xs, key x ≠ k := fun hall => h.elim fun x hx => hall x hx.1 hx.2
    simp only [mem_map, hnone, false_and, or_false]
    constructor
    · rintro ⟨x, hx, rfl⟩
      by_cases hk : key x = k
      · rw [if_pos hk]
        exact .inr ⟨x, hx, hk, rfl⟩
      · rw [if_neg hk]
        exact .inl ⟨hx, hk⟩
    · rintro (⟨hy, hk⟩ | ⟨x, hx, hk, rfl⟩)
      · exact ⟨y, hy, if_neg hk⟩
      · exact ⟨x, hx, if_pos hk⟩
  · have hall : ∀ x ∈ xs, key x ≠ k := fun x hx hk => h ⟨x, hx, hk⟩
    rw [mem_append, mem_singleton]
    constructor
    · rintro (hy | rfl)
      · exact .inl ⟨hy, hall y hy⟩
      · exact .inr (.inr ⟨hall, rfl⟩)
    · rintro (⟨hy, -⟩ | ⟨x, hx, hk, -⟩ | ⟨-, rfl⟩)
      · exact .inl hy
      · exact absurd hk (hall x hx)
      · exact .inr rfl

/-- A write, seen through a map that shows the key. -/
theorem map_upsert {key' : β → κ} {g : α → β} {f' : β → β}
    (hkey : ∀ x, key' (g x) = key x) (hf : ∀ x, g (f x) = f' (g x)) :
    (xs.upsert key k new f).map g = (xs.map g).upsert key' k (g new) f' := by
  have hex : (∃ x ∈ xs, key x = k) ↔ ∃ y ∈ xs.map g, key' y = k := by
    simp only [mem_map, exists_exists_and_eq_and, hkey]
  unfold upsert
  by_cases h : ∃ x ∈ xs, key x = k
  · rw [if_pos h, if_pos (hex.mp h), map_map, map_map]
    refine map_congr_left fun x _ => ?_
    show g (if key x = k then f x else x) = if key' (g x) = k then f' (g x) else g x
    rw [hkey]
    split_ifs
    · exact hf x
    · rfl
  · rw [if_neg h, if_neg (hex.not.mp h), map_append, map_singleton]

/-- Writing over an element of a key leaves the keys. -/
theorem map_key_ite (hf : ∀ x, key x = k → key (f x) = k) :
    (xs.map fun x => if key x = k then f x else x).map key = xs.map key := by
  rw [map_map]
  refine map_congr_left fun x _ => ?_
  show key (if key x = k then f x else x) = key x
  split_ifs with hx
  · rw [hf x hx, hx]
  · rfl

/-- Keys stay unrepeated. -/
theorem nodup_upsert (hnew : key new = k) (hf : ∀ x, key x = k → key (f x) = k)
    (h : (xs.map key).Nodup) : ((xs.upsert key k new f).map key).Nodup := by
  unfold upsert
  split_ifs with hex
  · rwa [map_key_ite hf]
  · rw [map_append, map_singleton, hnew, nodup_append_comm, singleton_append, nodup_cons]
    refine ⟨fun hmem => ?_, h⟩
    obtain ⟨x, hx, hk⟩ := mem_map.mp hmem
    exact hex ⟨x, hx, hk⟩

/-- What keys there are after a write. -/
theorem mem_map_upsert (hnew : key new = k) (hf : ∀ x, key x = k → key (f x) = k) {j : κ} :
    j ∈ (xs.upsert key k new f).map key ↔ j = k ∨ j ∈ xs.map key := by
  unfold upsert
  split_ifs with hex
  · obtain ⟨x, hx, hk⟩ := hex
    rw [map_key_ite hf, or_iff_right_of_imp]
    rintro rfl
    exact mem_map.mpr ⟨x, hx, hk⟩
  · rw [map_append, mem_append, map_singleton, mem_singleton, hnew, or_comm]

/-- A store, with those of `live` whose keys it lacks: what it will hold once
all of them are written. -/
def withMissing (key : α → κ) (saved live : List α) : List α :=
  saved ++ live.filter fun x => key x ∉ saved.map key

section WithMissing

variable {saved live : List α} {x y : α}

theorem mem_withMissing : y ∈ saved.withMissing key live
    ↔ y ∈ saved ∨ y ∈ live ∧ key y ∉ saved.map key := by
  rw [withMissing, mem_append, mem_filter, decide_eq_true_iff]

/-- **A write of one of them makes no difference**, where it leaves what is
saved under its key. -/
theorem mem_withMissing_upsert (hnodup : (live.map key).Nodup) (hx : x ∈ live)
    (hf : ∀ z ∈ saved, key z = key x → f z = z) :
    y ∈ (saved.upsert key (key x) x f).withMissing key live ↔ y ∈ saved.withMissing key live := by
  rw [mem_withMissing, mem_withMissing]
  by_cases hold : ∃ z ∈ saved, key z = key x
  · have hsame : saved.upsert key (key x) x f = saved := by
      rw [upsert, if_pos hold]
      calc saved.map (fun z => if key z = key x then f z else z)
          = saved.map id := map_congr_left fun z hz => by
            split_ifs with hk
            · exact hf z hz hk
            · rfl
        _ = saved := map_id saved
    rw [hsame]
  · rw [upsert, if_neg hold, map_append, map_singleton, mem_append, mem_singleton, mem_append,
      mem_singleton, not_or]
    constructor
    · rintro ((hy | rfl) | ⟨hy, hmissing, -⟩)
      · exact .inl hy
      · exact .inr ⟨hx, fun hmem => hold (mem_map.mp hmem)⟩
      · exact .inr ⟨hy, hmissing⟩
    · rintro (hy | ⟨hy, hmissing⟩)
      · exact .inl (.inl hy)
      · by_cases hkey : key y = key x
        · exact .inl (.inr (inj_on_of_nodup_map hnodup hy hx hkey))
        · exact .inr ⟨hy, hmissing, hkey⟩

/-- One more, under a key that is new. -/
theorem mem_withMissing_snoc (hnew : key x ∉ saved.map key) :
    y ∈ saved.withMissing key (live ++ [x]) ↔ y ∈ saved.withMissing key live ∨ y = x := by
  rw [mem_withMissing, mem_withMissing, mem_append, mem_singleton, or_and_right, or_assoc]
  refine or_congr_right (or_congr_right (and_iff_left_of_imp ?_))
  rintro rfl
  exact hnew

/-- Where all are written the store lacks none. -/
theorem withMissing_eq_self (h : ∀ x ∈ live, key x ∈ saved.map key) :
    saved.withMissing key live = saved := by
  rw [withMissing, filter_eq_nil_iff.mpr, append_nil]
  exact fun x hx => by rw [decide_eq_true_iff, not_not]; exact h x hx

end WithMissing

/-- What a write does not change of the elements that pass a test. -/
theorem map_filter_upsert {p : α → Bool} {g : α → β}
    (hp : ∀ x ∈ xs, key x = k → p (f x) = p x ∧ (p x = true → g (f x) = g x))
    (hnew : (∃ x ∈ xs, key x = k) ∨ p new = false) :
    ((xs.upsert key k new f).filter p).map g = (xs.filter p).map g := by
  unfold upsert
  split_ifs with hex
  · clear hex hnew
    induction xs with
    | nil => rfl
    | cons x xs ih =>
      obtain ⟨hx, hxs⟩ := forall_mem_cons.mp hp
      rw [map_cons, filter_cons, filter_cons]
      by_cases hk : key x = k
      · rw [if_pos hk, (hx hk).1]
        split_ifs with hpx
        · rw [map_cons, map_cons, ih hxs, (hx hk).2 hpx]
        · exact ih hxs
      · rw [if_neg hk]
        split_ifs
        · rw [map_cons, map_cons, ih hxs]
        · exact ih hxs
  · rw [filter_append, filter_singleton, hnew.resolve_left hex]
    simp

/-- Put an element under its key, as an assignment to a dictionary does. -/
def put (key : α → κ) (xs : List α) (x : α) : List α := xs.upsert key (key x) x fun _ => x

theorem mem_put {x y : α} : y ∈ xs.put key x ↔ y = x ∨ y ∈ xs ∧ key y ≠ key x := by
  rw [put, mem_upsert]
  constructor
  · rintro (h | ⟨-, -, -, rfl⟩ | ⟨-, rfl⟩)
    · exact .inr h
    · exact .inl rfl
    · exact .inl rfl
  · rintro (rfl | h)
    · by_cases hex : ∃ x ∈ xs, key x = key y
      · obtain ⟨x, hx, hk⟩ := hex
        exact .inr (.inl ⟨x, hx, hk, rfl⟩)
      · exact .inr (.inr ⟨fun x hx hk => hex ⟨x, hx, hk⟩, rfl⟩)
    · exact .inl h

theorem map_put {key' : β → κ} {g : α → β} (hkey : ∀ x, key' (g x) = key x) (x : α) :
    (xs.put key x).map g = (xs.map g).put key' (g x) := by
  rw [put, put, hkey]
  exact map_upsert hkey fun _ => rfl

theorem nodup_put {x : α} (h : (xs.map key).Nodup) : ((xs.put key x).map key).Nodup :=
  nodup_upsert rfl (fun _ _ => rfl) h

/-- What is in a store after several puts is new, or old under a key that
none of them has. -/
theorem mem_foldl_put {ys : List α} {y : α} (h : y ∈ ys.foldl (put key) xs) :
    y ∈ ys ∨ y ∈ xs ∧ key y ∉ ys.map key := by
  induction ys generalizing xs with
  | nil => exact .inr ⟨h, not_mem_nil⟩
  | cons x ys ih =>
    rcases ih h with hy | ⟨hy, hk⟩
    · exact .inl (mem_cons_of_mem x hy)
    · rcases mem_put.mp hy with rfl | ⟨hy, hne⟩
      · exact .inl mem_cons_self
      · exact .inr ⟨hy, by simpa [hne] using hk⟩

/-- Puts under other keys leave an element. -/
theorem mem_foldl_put_of_mem {ys : List α} {y : α} (h : y ∈ xs)
    (hk : key y ∉ ys.map key) : y ∈ ys.foldl (put key) xs := by
  induction ys generalizing xs with
  | nil => exact h
  | cons x ys ih =>
    rw [map_cons, mem_cons, not_or] at hk
    exact ih (mem_put.mpr (.inr ⟨h, hk.1⟩)) hk.2

/-- The last of several puts is not overwritten. -/
theorem exists_mem_foldl_put {ys : List α} (h : ys ≠ []) :
    ∃ y ∈ ys, y ∈ ys.foldl (put key) xs := by
  obtain ⟨zs, y, rfl⟩ := (eq_nil_or_concat' ys).resolve_left h
  refine ⟨y, by simp, ?_⟩
  rw [foldl_append]
  exact mem_put.mpr (.inl rfl)

/-- None of several puts under different keys is overwritten. -/
theorem mem_foldl_put_of_nodup {ys : List α} {y : α} (hnodup : (ys.map key).Nodup)
    (h : y ∈ ys) : y ∈ ys.foldl (put key) xs := by
  induction ys generalizing xs with
  | nil => cases h
  | cons x ys ih =>
    rw [map_cons, nodup_cons] at hnodup
    rcases mem_cons.mp h with rfl | h
    · show y ∈ ys.foldl (put key) (xs.put key y)
      exact mem_foldl_put_of_mem (mem_put.mpr (.inl rfl)) hnodup.1
    · exact ih hnodup.2 h

theorem nodup_foldl_put {ys : List α} (h : (xs.map key).Nodup) :
    ((ys.foldl (put key) xs).map key).Nodup := by
  induction ys generalizing xs with
  | nil => exact h
  | cons x ys ih => exact ih (nodup_put h)

end Upsert

/-- A monadic map reads its function at the elements of the list only. -/
theorem mapM_eq_of_forall_mem {m : Type → Type} [Monad m] [LawfulMonad m]
    {γ : Type} {f g : α → m γ} {xs : List α} (h : ∀ x ∈ xs, f x = g x) :
    xs.mapM f = xs.mapM g := by
  induction xs with
  | nil => rfl
  | cons x xs ih =>
    rw [mapM_cons, mapM_cons, h x mem_cons_self, ih fun y hy => h y (mem_cons_of_mem x hy)]

/-! ## What is stored under a key -/

section ValueAt

variable {κ γ : Type*} [DecidableEq κ] {key : α → κ} {g : α → γ} {xs : List α} {k : κ}

/-- What is stored under a key: of the first element that has it. -/
def valueAt (key : α → κ) (g : α → γ) (xs : List α) (k : κ) : Option γ :=
  (xs.find? fun x => key x = k).map g

theorem valueAt_cons (x : α) :
    (x :: xs).valueAt key g k = if key x = k then some (g x) else xs.valueAt key g k := by
  unfold valueAt
  rw [find?_cons]
  by_cases h : key x = k
  · rw [if_pos h, decide_eq_true h]
    rfl
  · rw [if_neg h, decide_eq_false h]

/-- Where keys are unrepeated, the element of a key gives its value. -/
theorem valueAt_eq_some_iff {v : γ} (hnodup : (xs.map key).Nodup) :
    xs.valueAt key g k = some v ↔ ∃ x ∈ xs, key x = k ∧ g x = v := by
  induction xs with
  | nil => exact iff_of_false (fun h => by cases h) (by rintro ⟨x, hx, -⟩; cases hx)
  | cons y xs ih =>
    rw [map_cons, nodup_cons] at hnodup
    rw [valueAt_cons]
    split_ifs with hy
    · constructor
      · exact fun h => ⟨y, mem_cons_self, hy, Option.some.inj h⟩
      · rintro ⟨x, hx, hkey, rfl⟩
        rcases mem_cons.mp hx with rfl | hx
        · rfl
        · exact absurd (mem_map.mpr ⟨x, hx, hkey.trans hy.symm⟩) hnodup.1
    · rw [ih hnodup.2]
      constructor
      · rintro ⟨x, hx, h⟩
        exact ⟨x, mem_cons_of_mem _ hx, h⟩
      · rintro ⟨x, hx, hkey, hv⟩
        rcases mem_cons.mp hx with rfl | hx
        · exact absurd hkey hy
        · exact ⟨x, hx, hkey, hv⟩

/-- Keys and values are all that counts. -/
theorem valueAt_congr {ys : List α}
    (h : ys.map (fun x => (key x, g x)) = xs.map fun x => (key x, g x)) :
    ys.valueAt key g = xs.valueAt key g := by
  funext k
  induction xs generalizing ys with
  | nil => rw [map_eq_nil_iff.mp h]
  | cons x xs ih =>
    cases ys with
    | nil => cases h
    | cons y ys =>
      rw [map_cons, map_cons, cons.injEq, Prod.mk.injEq] at h
      rw [valueAt_cons, valueAt_cons, h.1.1, h.1.2, ih h.2]

/-- A new key. -/
theorem valueAt_append_new {x : α} (h : key x ∉ xs.map key) :
    (xs ++ [x]).valueAt key g = Function.update (xs.valueAt key g) (key x) (some (g x)) := by
  funext k
  induction xs with
  | nil =>
    show ([x] : List α).valueAt key g k = _
    rw [valueAt_cons]
    by_cases hk : key x = k
    · rw [if_pos hk, ← hk, Function.update_self]
    · rw [if_neg hk, Function.update_of_ne (Ne.symm hk)]
  | cons y xs ih =>
    rw [map_cons, mem_cons, not_or] at h
    rw [cons_append, valueAt_cons, ih h.2]
    by_cases hk : key y = k
    · rw [if_pos hk, Function.update_of_ne (hk ▸ Ne.symm h.1), valueAt_cons, if_pos hk]
    · rw [if_neg hk]
      by_cases hx : k = key x
      · rw [hx, Function.update_self, Function.update_self]
      · rw [Function.update_of_ne hx, Function.update_of_ne hx, valueAt_cons, if_neg hk]

/-- The element of a key is changed in its place. -/
theorem valueAt_modify {f : α → α} {x : α} {i : ℕ} (hnodup : (xs.map key).Nodup)
    (hx : xs[i]? = some x) (hf : key (f x) = key x) :
    (xs.modify i f).valueAt key g
      = Function.update (xs.valueAt key g) (key x) (some (g (f x))) := by
  funext k
  induction xs generalizing i with
  | nil => cases hx
  | cons y xs ih =>
    rw [map_cons, nodup_cons] at hnodup
    cases i with
    | zero =>
      obtain rfl := Option.some.inj hx
      show (f y :: xs).valueAt key g k = _
      rw [valueAt_cons, hf]
      by_cases hk : key y = k
      · rw [if_pos hk, ← hk, Function.update_self]
      · rw [if_neg hk, Function.update_of_ne (Ne.symm hk), valueAt_cons, if_neg hk]
    | succ i =>
      have hne : key y ≠ key x := fun heq =>
        hnodup.1 (heq ▸ mem_map_of_mem (mem_of_getElem? hx))
      show (y :: xs.modify i f).valueAt key g k = _
      rw [valueAt_cons, ih hnodup.2 hx]
      by_cases hk : key y = k
      · rw [if_pos hk, Function.update_of_ne (hk ▸ hne), valueAt_cons, if_pos hk]
      · rw [if_neg hk]
        by_cases hkx : k = key x
        · rw [hkx, Function.update_self, Function.update_self]
        · rw [Function.update_of_ne hkx, Function.update_of_ne hkx, valueAt_cons, if_neg hk]

/-- All elements of a key are changed. -/
theorem valueAt_map_if {f : α → α} (hf : ∀ x, key x = k → key (f x) = k) (j : κ) :
    (xs.map fun x => if key x = k then f x else x).valueAt key g j
      = if j = k then xs.valueAt key (fun x => g (f x)) k else xs.valueAt key g j := by
  induction xs with
  | nil => exact (ite_self _).symm
  | cons x xs ih =>
    rw [map_cons, valueAt_cons, ih]
    by_cases hx : key x = k
    · rw [if_pos hx, hf x hx, valueAt_cons, valueAt_cons, if_pos hx, hx]
      by_cases hj : j = k
      · rw [if_pos hj, if_pos hj.symm, if_pos hj]
      · rw [if_neg hj, if_neg hj, if_neg (Ne.symm hj), if_neg (Ne.symm hj)]
    · rw [if_neg hx, valueAt_cons, valueAt_cons, if_neg hx]
      by_cases hj : j = k
      · rw [if_pos hj, if_pos hj, hj, if_neg hx]
      · rw [if_neg hj, if_neg hj]

/-- A key that is there has a value. -/
theorem valueAt_eq_some {v : γ} (hex : ∃ x ∈ xs, key x = k) (hg : ∀ x, key x = k → g x = v) :
    xs.valueAt key g k = some v := by
  obtain ⟨x, hx, hkey⟩ := hex
  induction xs with
  | nil => exact absurd hx not_mem_nil
  | cons y xs ih =>
    rw [valueAt_cons]
    split_ifs with hy
    · rw [hg y hy]
    · rcases mem_cons.mp hx with rfl | hx
      · exact absurd hkey hy
      · exact ih hx

/-- A write under a key, with the same value whether the key was there. -/
theorem valueAt_upsert {new : α} {f : α → α} {v : γ} (hkey : key new = k) (hnew : g new = v)
    (hf : ∀ x, key x = k → key (f x) = k ∧ g (f x) = v) :
    (xs.upsert key k new f).valueAt key g = Function.update (xs.valueAt key g) k (some v) := by
  unfold upsert
  split_ifs with hex
  · funext j
    rw [valueAt_map_if fun x hx => (hf x hx).1]
    by_cases hj : j = k
    · rw [if_pos hj, hj, Function.update_self]
      exact valueAt_eq_some hex fun x hx => (hf x hx).2
    · rw [if_neg hj, Function.update_of_ne hj]
  · rw [← hkey] at hex
    rw [valueAt_append_new fun hmem => ?_, hkey, hnew]
    obtain ⟨x, hx, heq⟩ := mem_map.mp hmem
    exact hex ⟨x, hx, heq⟩

end ValueAt

/-! ## Lists in the order of a key -/

/-- Of a list in the order of a key, what is from `m` on is what is at `m`,
and then what is after it. -/
theorem filter_le_eq_append {γ : Type*} [LinearOrder γ] {key : α → γ} {m : γ}
    {xs : List α} (h : xs.Pairwise fun a b => key a ≤ key b) :
    xs.filter (fun x => m ≤ key x)
      = xs.filter (fun x => key x = m) ++ xs.filter (fun x => m < key x) := by
  induction xs with
  | nil => rfl
  | cons x xs ih =>
    obtain ⟨hx, hxs⟩ := pairwise_cons.mp h
    rcases lt_trichotomy (key x) m with hlt | heq | hgt
    · simp [hlt.not_ge, hlt.ne, hlt.not_gt, ih hxs]
    · simp [heq, ih hxs]
    · -- nothing behind an element after `m` is at `m`
      have hnone : xs.filter (fun y => key y = m) = [] :=
        filter_eq_nil_iff.mpr fun y hy => by simpa using (hgt.trans_le (hx y hy)).ne'
      simp [hgt, hgt.le, hgt.ne', ih hxs, hnone]

end List
