import Mathlib.Data.List.MinMax
import Mathlib.Data.List.Sort
import Mathlib.Order.Defs.LinearOrder

/-!
# Stable sorts

Sorting a list by a key and taking the head selects the first of the elements
with the least key. Where only some elements are sorted, or what is made of
them, it is the first of these (`IsFirstLeast`), and the head is told by the
list as it stands, without sorting it. In the same way a search through the
sorted list, from either end, is told by the list as it stands (`earliest?`,
`latest?`).

A comparison may be refused, as that of two values of different kinds is. A
sort by such a comparison (`sortBy?`) returns exactly where all elements are
of one kind, for no sort can put two elements in order without comparing
across each gap between them; and then it is the sort by the key.
-/

namespace List

variable {α β γ : Type*} [LinearOrder γ]

/-- A list sorted by a key is in the order of the key. -/
theorem pairwise_insertionSort_le (key : α → γ) (xs : List α) :
    (xs.insertionSort fun a b => key a ≤ key b).Pairwise fun a b => key a ≤ key b := by
  have htrans : IsTrans α fun a b => key a ≤ key b := ⟨fun _ _ _ => le_trans⟩
  have htotal : Std.Total fun a b => key a ≤ key b := ⟨fun a b => le_total (key a) (key b)⟩
  exact pairwise_insertionSort _ xs

/-- The head after an insertion. -/
theorem head?_orderedInsert {r : α → α → Prop} [DecidableRel r] (x : α) (xs : List α) :
    (xs.orderedInsert r x).head? = some (xs.head?.elim x fun y => if r x y then x else y) := by
  cases xs with
  | nil => rfl
  | cons y ys =>
    rw [orderedInsert_cons]
    split_ifs with h
    · simp [h]
    · simp [h]

/-- The head of a stable sort is what `argmin` finds. -/
theorem head?_insertionSort (key : α → γ) (xs : List α) :
    (xs.insertionSort fun a b => key a ≤ key b).head? = xs.argmin key := by
  induction xs with
  | nil => rfl
  | cons x xs ih =>
    rw [insertionSort_cons, head?_orderedInsert, ih, argmin_cons]
    cases xs.argmin key with
    | none => rfl
    | some y =>
      show some (if key x ≤ key y then x else y) = if key y < key x then some y else some x
      by_cases hxy : key x ≤ key y
      · rw [if_pos hxy, if_neg (not_lt.mpr hxy)]
      · rw [if_neg hxy, if_pos (not_le.mp hxy)]

/-- The first least of a list is its first element, or that of the rest. -/
theorem exists_firstLeast_cons_iff {key : α → γ} {x a : α} {xs : List α} :
    (∃ as bs, x :: xs = as ++ a :: bs ∧ (∀ y ∈ as, key a < key y) ∧ ∀ y ∈ bs, key a ≤ key y)
      ↔ (x = a ∧ ∀ y ∈ xs, key a ≤ key y) ∨ (key a < key x
        ∧ ∃ as bs, xs = as ++ a :: bs ∧ (∀ y ∈ as, key a < key y) ∧ ∀ y ∈ bs, key a ≤ key y) := by
  constructor
  · rintro ⟨as, bs, hxs, has, hbs⟩
    cases as with
    | nil =>
      obtain ⟨rfl, rfl⟩ := cons.inj hxs
      exact .inl ⟨rfl, hbs⟩
    | cons z as =>
      obtain ⟨rfl, htail⟩ := cons.inj hxs
      exact .inr ⟨has x mem_cons_self, as, bs, htail, fun y hy => has y (mem_cons_of_mem x hy), hbs⟩
  · rintro (⟨rfl, hall⟩ | ⟨hlt, as, bs, rfl, has, hbs⟩)
    · exact ⟨[], xs, rfl, by simp, hall⟩
    · exact ⟨x :: as, bs, rfl, forall_mem_cons.mpr ⟨hlt, has⟩, hbs⟩

/-- **The least element that comes first**, by where it stands. -/
theorem argmin_eq_some_iff_append {key : α → γ} {xs : List α} {a : α} :
    xs.argmin key = some a
      ↔ ∃ as bs, xs = as ++ a :: bs ∧ (∀ x ∈ as, key a < key x) ∧ ∀ x ∈ bs, key a ≤ key x := by
  induction xs with
  | nil => simp
  | cons x xs ih =>
    rw [argmin_cons, exists_firstLeast_cons_iff, ← ih]
    cases hmin : xs.argmin key with
    | none =>
      obtain rfl := argmin_eq_none.mp hmin
      simp
    | some y =>
      have hle : ∀ z ∈ xs, key y ≤ key z := fun z hz => le_of_mem_argmin hz hmin
      show (if key y < key x then some y else some x) = some a ↔ _
      split_ifs with hlt
      · constructor
        · rintro ⟨⟩
          exact .inr ⟨hlt, rfl⟩
        · rintro (⟨rfl, hall⟩ | ⟨-, hy⟩)
          · exact absurd (hall y (argmin_mem hmin)) (not_le.mpr hlt)
          · exact hy
      · constructor
        · rintro ⟨⟩
          exact .inl ⟨rfl, fun z hz => (not_lt.mp hlt).trans (hle z hz)⟩
        · rintro (⟨rfl, -⟩ | ⟨hax, ⟨⟩⟩)
          · rfl
          · exact absurd hax hlt

/-- **The head of a stable sort** is the first of the least elements. -/
theorem head?_insertionSort_eq_some_iff {key : α → γ} {xs : List α} {a : α} :
    (xs.insertionSort fun a b => key a ≤ key b).head? = some a
      ↔ ∃ as bs, xs = as ++ a :: bs ∧ (∀ x ∈ as, key a < key x) ∧ ∀ x ∈ bs, key a ≤ key x := by
  rw [head?_insertionSort, argmin_eq_some_iff_append]

/-- **The first of the least things made of a list**: `b` is made of the
element `a`, what is made before it has a larger key, and what is made behind
it no smaller one. -/
def IsFirstLeast (f : α → Option β) (key : β → γ) (xs : List α) (a : α) (b : β) : Prop :=
  ∃ as bs, xs = as ++ a :: bs ∧ f a = some b
    ∧ (∀ x ∈ as, ∀ y, f x = some y → key b < key y) ∧ ∀ x ∈ bs, ∀ y, f x = some y → key b ≤ key y

section IsFirstLeast

variable {f : α → Option β} {key : β → γ} {xs : List α} {a : α} {b : β}

theorem IsFirstLeast.mem (h : xs.IsFirstLeast f key a b) : a ∈ xs := by
  obtain ⟨as, bs, rfl, -⟩ := h
  simp

theorem IsFirstLeast.made (h : xs.IsFirstLeast f key a b) : f a = some b := by
  obtain ⟨as, bs, -, hb, -⟩ := h
  exact hb

/-- Nothing that is made is less. -/
theorem IsFirstLeast.le (h : xs.IsFirstLeast f key a b) {x : α} {y : β} (hx : x ∈ xs)
    (hy : f x = some y) : key b ≤ key y := by
  obtain ⟨as, bs, rfl, hb, has, hbs⟩ := h
  rcases mem_append.mp hx with hx | hx
  · exact (has x hx y hy).le
  · rcases mem_cons.mp hx with rfl | hx
    · obtain rfl := Option.some.inj (hb.symm.trans hy)
      exact le_rfl
    · exact hbs x hx y hy

/-- **Sorting what is made of a list** has its first least at the head. -/
theorem head?_insertionSort_filterMap_eq_some_iff :
    ((xs.filterMap f).insertionSort fun a b => key a ≤ key b).head? = some b
      ↔ ∃ a, xs.IsFirstLeast f key a b := by
  rw [head?_insertionSort_eq_some_iff]
  constructor
  · rintro ⟨ms, ns, hsplit, hms, hns⟩
    obtain ⟨as, rest, rfl, rfl, hrest⟩ := filterMap_eq_append_iff.mp hsplit
    obtain ⟨zs, a, bs, rfl, hzs, ha, rfl⟩ := filterMap_eq_cons_iff.mp hrest
    refine ⟨a, as ++ zs, bs, (append_assoc ..).symm ▸ rfl, ha, fun x hx y hy => ?_,
      fun x hx y hy => hns y (mem_filterMap.mpr ⟨x, hx, hy⟩)⟩
    rcases mem_append.mp hx with hx | hx
    · exact hms y (mem_filterMap.mpr ⟨x, hx, hy⟩)
    · exact absurd (hzs x hx) (by rw [hy]; exact Option.some_ne_none y)
  · rintro ⟨a, as, bs, rfl, ha, has, hbs⟩
    refine ⟨as.filterMap f, bs.filterMap f, ?_, fun y hy => ?_, fun y hy => ?_⟩
    · rw [filterMap_append, filterMap_cons_some ha]
    · obtain ⟨x, hx, hxy⟩ := mem_filterMap.mp hy
      exact has x hx y hxy
    · obtain ⟨x, hx, hxy⟩ := mem_filterMap.mp hy
      exact hbs x hx y hxy

end IsFirstLeast

/-! ## Searches through a sorted list -/

section Search

/-- A filter of an insertion into a list in order. -/
theorem filter_orderedInsert {key : α → γ} (p : α → Bool) (x : α) {ys : List α}
    (hsorted : ys.Pairwise fun a b => key a ≤ key b) :
    (ys.orderedInsert (fun a b => key a ≤ key b) x).filter p
      = if p x then (ys.filter p).orderedInsert (fun a b => key a ≤ key b) x
        else ys.filter p := by
  induction ys with
  | nil => simp [filter_singleton]
  | cons y ys ih =>
    have hle := (pairwise_cons.mp hsorted).1
    rw [orderedInsert_cons]
    by_cases hxy : key x ≤ key y
    · rw [if_pos hxy, filter_cons]
      refine if_congr Iff.rfl ?_ rfl
      cases hrest : (y :: ys).filter p with
      | nil => rfl
      | cons z zs =>
        have hz : z ∈ y :: ys := mem_of_mem_filter (hrest.symm ▸ mem_cons_self)
        have hyz : key y ≤ key z := (mem_cons.mp hz).elim (fun h => h ▸ le_rfl) (hle z)
        rw [orderedInsert_cons, if_pos (hxy.trans hyz)]
    · rw [if_neg hxy, filter_cons, ih (pairwise_cons.mp hsorted).2, filter_cons]
      by_cases hy : p y
      · simp only [if_pos hy, orderedInsert_cons, if_neg hxy]
        split_ifs
        · rfl
        · rfl
      · simp only [if_neg hy]

/-- **A filter of a sorted list** sorts what is left. -/
theorem filter_insertionSort (key : α → γ) (p : α → Bool) (xs : List α) :
    (xs.insertionSort fun a b => key a ≤ key b).filter p
      = (xs.filter p).insertionSort fun a b => key a ≤ key b := by
  induction xs with
  | nil => rfl
  | cons x xs ih =>
    rw [insertionSort_cons, filter_orderedInsert p x (pairwise_insertionSort_le key xs), ih,
      filter_cons]
    split_ifs
    · rfl
    · rfl

/-- The last element after an insertion into a list in order. -/
theorem getLast?_orderedInsert {key : α → γ} (x : α) {ys : List α}
    (hsorted : ys.Pairwise fun a b => key a ≤ key b) :
    (ys.orderedInsert (fun a b => key a ≤ key b) x).getLast?
      = some (ys.getLast?.elim x fun y => if key x ≤ key y then y else x) := by
  induction ys with
  | nil => rfl
  | cons y ys ih =>
    obtain ⟨hle, hys⟩ := pairwise_cons.mp hsorted
    rw [orderedInsert_cons]
    cases hlast : ys.getLast? with
    | none =>
      obtain rfl := getLast?_eq_none_iff.mp hlast
      by_cases hxy : key x ≤ key y
      · simp [hxy]
      · simp [hxy]
    | some z =>
      have hyz : key y ≤ key z := hle z (mem_of_getLast? hlast)
      by_cases hxy : key x ≤ key y
      · simp [hxy, hxy.trans hyz, getLast?_cons, hlast]
      · rw [if_neg hxy, getLast?_cons, ih hys, hlast, getLast?_cons, hlast]
        rfl

/-- The last element is what `argmax` finds from the end. -/
theorem getLast?_insertionSort (key : α → γ) (xs : List α) :
    (xs.insertionSort fun a b => key a ≤ key b).getLast? = xs.reverse.argmax key := by
  induction xs with
  | nil => rfl
  | cons x xs ih =>
    rw [insertionSort_cons, getLast?_orderedInsert x (pairwise_insertionSort_le key xs), ih,
      reverse_cons, argmax_concat]
    cases xs.reverse.argmax key with
    | none => rfl
    | some y =>
      show some (if key x ≤ key y then y else x) = if key y < key x then some x else some y
      by_cases hxy : key x ≤ key y
      · rw [if_pos hxy, if_neg (not_lt.mpr hxy)]
      · rw [if_neg hxy, if_pos (not_le.mp hxy)]

/-- What the element with the least key gives, of those that give something;
the first of them where several have it. -/
def earliest? (key : α → γ) (f : α → Option β) (xs : List α) : Option β :=
  ((xs.filter fun x => (f x).isSome).argmin key).bind f

/-- What the element with the greatest key gives, of those that give something;
the last of them where several have it. -/
def latest? (key : α → γ) (f : α → Option β) (xs : List α) : Option β :=
  ((xs.filter fun x => (f x).isSome).reverse.argmax key).bind f

theorem findSome?_eq_bind_head?_filter (f : α → Option β) (xs : List α) :
    xs.findSome? f = (xs.filter fun x => (f x).isSome).head?.bind f := by
  induction xs with
  | nil => rfl
  | cons x xs ih =>
    rw [findSome?_cons, filter_cons]
    cases hx : f x with
    | none => simpa [hx] using ih
    | some y => simp [hx]

/-- **A search through a sorted list** finds the earliest. -/
theorem findSome?_insertionSort (key : α → γ) (f : α → Option β) (xs : List α) :
    (xs.insertionSort fun a b => key a ≤ key b).findSome? f = xs.earliest? key f := by
  rw [findSome?_eq_bind_head?_filter, filter_insertionSort, head?_insertionSort, earliest?]

/-- **A search from its end** finds the latest. -/
theorem findSome?_reverse_insertionSort (key : α → γ) (f : α → Option β) (xs : List α) :
    (xs.insertionSort fun a b => key a ≤ key b).reverse.findSome? f = xs.latest? key f := by
  rw [findSome?_eq_bind_head?_filter, filter_reverse, filter_insertionSort, head?_reverse,
    getLast?_insertionSort, latest?]

end Search

/-! ## Comparisons that are refused -/

section Refused

variable {κ : Type*} [DecidableEq κ]

/-- Insert an element where it is first not larger than what follows; `none`
where a comparison is refused. -/
def insertBy? (lt? : α → α → Option Bool) (x : α) : List α → Option (List α)
  | [] => some [x]
  | y :: ys => (lt? y x).bind fun less =>
    if less then (insertBy? lt? x ys).map (y :: ·) else some (x :: y :: ys)

/-- A stable sort by a comparison that may be refused. -/
def sortBy? (lt? : α → α → Option Bool) : List α → Option (List α)
  | [] => some []
  | x :: xs => (sortBy? lt? xs).bind (insertBy? lt? x)

/-- **Elements of one kind are compared by their keys**, and no others are
compared. -/
def ltOfKind (kind : α → κ) (key : α → γ) (a b : α) : Option Bool :=
  if kind a = kind b then some (key a < key b) else none

variable {kind : α → κ} {key : α → γ}

/-- Within one kind an insertion is the insertion by the key. -/
theorem insertBy?_of_kind {x : α} {ys : List α} (h : ∀ y ∈ ys, kind y = kind x) :
    insertBy? (ltOfKind kind key) x ys
      = some (ys.orderedInsert (fun a b => key a ≤ key b) x) := by
  induction ys with
  | nil => rfl
  | cons y ys ih =>
    rw [insertBy?, ltOfKind, if_pos (h y mem_cons_self), Option.bind_some, orderedInsert_cons,
      ih fun z hz => h z (mem_cons_of_mem _ hz)]
    by_cases hlt : key y < key x
    · simp [hlt]
    · simp [not_lt.mp hlt, hlt]

/-- An insertion into elements of another kind is refused. -/
theorem insertBy?_of_ne {x y : α} {ys : List α} (h : kind y ≠ kind x) :
    insertBy? (ltOfKind kind key) x (y :: ys) = none := by
  rw [insertBy?, ltOfKind, if_neg h, Option.bind_none]

/-- **A sort returns exactly within one kind**, and there it is the sort by
the key. -/
theorem sortBy?_eq_some_iff {xs ys : List α} : xs.sortBy? (ltOfKind kind key) = some ys
    ↔ (∀ a ∈ xs, ∀ b ∈ xs, kind a = kind b)
      ∧ ys = xs.insertionSort fun a b => key a ≤ key b := by
  induction xs generalizing ys with
  | nil => simp [sortBy?, eq_comm]
  | cons x xs ih =>
    rw [sortBy?, Option.bind_eq_some_iff]
    constructor
    · rintro ⟨zs, hzs, hys⟩
      obtain ⟨hkind, rfl⟩ := ih.mp hzs
      -- the rest is of one kind, so its first element decides for all
      have hx : ∀ y ∈ xs, kind y = kind x := by
        cases hsorted : xs.insertionSort fun a b => key a ≤ key b with
        | nil =>
          rw [← length_eq_zero_iff, length_insertionSort, length_eq_zero_iff] at hsorted
          simp [hsorted]
        | cons z zs =>
          have hz : z ∈ xs := (mem_insertionSort fun a b => key a ≤ key b).mp (by simp [hsorted])
          intro y hy
          by_contra hne
          rw [hsorted, insertBy?_of_ne (hkind z hz y hy ▸ hne)] at hys
          cases hys
      rw [insertBy?_of_kind fun y hy => hx y ((mem_insertionSort _).mp hy)] at hys
      refine ⟨fun a ha b hb => ?_, (Option.some.inj hys).symm⟩
      have hall : ∀ a ∈ x :: xs, kind a = kind x := fun a ha =>
        (mem_cons.mp ha).elim (fun h => h ▸ rfl) (hx a)
      exact (hall a ha).trans (hall b hb).symm
    · rintro ⟨hkind, rfl⟩
      refine ⟨_, ih.mpr ⟨fun a ha b hb => hkind a (mem_cons_of_mem _ ha) b (mem_cons_of_mem _ hb),
        rfl⟩, insertBy?_of_kind fun y hy => ?_⟩
      exact hkind y (mem_cons_of_mem _ ((mem_insertionSort _).mp hy)) x mem_cons_self

end Refused

end List
