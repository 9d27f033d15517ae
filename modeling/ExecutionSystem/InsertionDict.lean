import ExecutionSystem.ListFacts

/-!
# Dictionaries in insertion order

A dictionary is the list of its entries, each key once, in the order in
which the keys came: an assignment to a key that is there leaves it in its
place, and a new key goes to the end. What a dictionary has under a key is
read with `get?`, and `get?_eq_some_iff` ties this to the list; the two
updates are described by what they do to the keys and to what is read.

A loop over a list that pops keys, assigns to them or appends to the lists
under them is a fold, described by what is read when it is over.
-/

/-- **A dictionary in insertion order.** -/
structure InsertionDict (κ α : Type*) where
  entries : List (κ × α)
  nodup : (entries.map Prod.fst).Nodup

namespace InsertionDict

variable {κ α : Type*}

/-- The dictionary without entries. -/
def empty : InsertionDict κ α := ⟨[], List.nodup_nil⟩

/-- The keys, in the order in which they came. -/
def keys (d : InsertionDict κ α) : List κ := d.entries.map Prod.fst

/-- How many entries there are. -/
def size (d : InsertionDict κ α) : ℕ := d.entries.length

theorem nodup_keys (d : InsertionDict κ α) : d.keys.Nodup := d.nodup

@[simp] theorem keys_empty : (empty : InsertionDict κ α).keys = [] := rfl

@[simp] theorem length_keys (d : InsertionDict κ α) : d.keys.length = d.size :=
  List.length_map _

theorem mem_keys {d : InsertionDict κ α} {k : κ} : k ∈ d.keys ↔ ∃ a, (k, a) ∈ d.entries := by
  simp [keys]

/-- The keys that some entries have are unrepeated, as all keys are. -/
theorem nodup_map_filter (d : InsertionDict κ α) (p : κ × α → Bool) :
    ((d.entries.filter p).map Prod.fst).Nodup :=
  d.nodup.sublist (List.filter_sublist.map Prod.fst)

/-- Two entries under one key are one. -/
theorem eq_of_mem {d : InsertionDict κ α} {k : κ} {a b : α} (ha : (k, a) ∈ d.entries)
    (hb : (k, b) ∈ d.entries) : a = b :=
  congrArg Prod.snd (List.inj_on_of_nodup_map d.nodup ha hb rfl)

variable [DecidableEq κ]

/-- `d.get(k)`. -/
def get? (d : InsertionDict κ α) (k : κ) : Option α :=
  (d.entries.find? (·.1 = k)).map Prod.snd

/-- `d[k] = a`. -/
def set (d : InsertionDict κ α) (k : κ) (a : α) : InsertionDict κ α :=
  ⟨d.entries.put Prod.fst (k, a), List.nodup_put d.nodup⟩

/-- `d.pop(k, None)`. -/
def pop (d : InsertionDict κ α) (k : κ) : InsertionDict κ α :=
  ⟨d.entries.filter (·.1 ≠ k), d.nodup_map_filter _⟩

theorem get?_eq_some_iff {d : InsertionDict κ α} {k : κ} {a : α} :
    d.get? k = some a ↔ (k, a) ∈ d.entries := by
  unfold get?
  rw [Option.map_eq_some_iff]
  constructor
  · rintro ⟨⟨j, b⟩, hfind, rfl⟩
    have hj : j = k := by simpa using List.find?_some hfind
    exact hj ▸ List.mem_of_find?_eq_some hfind
  · intro hmem
    have hsome : (d.entries.find? (·.1 = k)).isSome := by
      rw [List.find?_isSome]
      exact ⟨_, hmem, decide_eq_true rfl⟩
    obtain ⟨⟨j, b⟩, hfind⟩ := Option.isSome_iff_exists.mp hsome
    have hj : j = k := by simpa using List.find?_some hfind
    exact ⟨_, hfind, eq_of_mem (hj ▸ List.mem_of_find?_eq_some hfind) hmem⟩

theorem isSome_get? {d : InsertionDict κ α} {k : κ} : (d.get? k).isSome ↔ k ∈ d.keys := by
  rw [Option.isSome_iff_exists, mem_keys]
  exact exists_congr fun a => get?_eq_some_iff

theorem get?_eq_none_iff {d : InsertionDict κ α} {k : κ} : d.get? k = none ↔ k ∉ d.keys := by
  rw [← isSome_get?, Option.not_isSome_iff_eq_none]

@[simp] theorem get?_empty (k : κ) : (empty : InsertionDict κ α).get? k = none := rfl

/-! ## Updates -/

theorem mem_entries_set {d : InsertionDict κ α} {k j : κ} {a b : α} :
    (j, b) ∈ (d.set k a).entries ↔ j = k ∧ b = a ∨ j ≠ k ∧ (j, b) ∈ d.entries := by
  show (j, b) ∈ d.entries.put Prod.fst (k, a) ↔ _
  rw [List.mem_put, Prod.mk.injEq, and_comm (a := (j, b) ∈ d.entries)]

/-- **What is read after an assignment.** -/
theorem get?_set (d : InsertionDict κ α) (k j : κ) (a : α) :
    (d.set k a).get? j = if j = k then some a else d.get? j := by
  ext b
  rw [get?_eq_some_iff, mem_entries_set]
  split_ifs with hj
  · simp [hj, eq_comm]
  · simp [hj, get?_eq_some_iff]

/-- A new key goes to the end. -/
theorem keys_set (d : InsertionDict κ α) (k : κ) (a : α) :
    (d.set k a).keys = if k ∈ d.keys then d.keys else d.keys ++ [k] := by
  have hex : (∃ x ∈ d.entries, x.1 = k) ↔ k ∈ d.keys := List.mem_map.symm
  show (d.entries.upsert Prod.fst k (k, a) fun _ => (k, a)).map Prod.fst = _
  unfold List.upsert
  by_cases h : k ∈ d.keys
  · rw [if_pos (hex.mpr h), if_pos h]
    exact List.map_key_ite (f := fun _ => (k, a)) fun _ _ => rfl
  · rw [if_neg (hex.not.mpr h), if_neg h, List.map_append]
    rfl

theorem mem_keys_set {d : InsertionDict κ α} {k j : κ} {a : α} :
    j ∈ (d.set k a).keys ↔ j = k ∨ j ∈ d.keys :=
  List.mem_map_upsert rfl fun _ _ => rfl

/-! ## What is under the keys -/

/-- Every value is replaced by what is made of it. -/
def mapValues {β : Type*} (d : InsertionDict κ α) (f : α → β) : InsertionDict κ β where
  entries := d.entries.map fun e => (e.1, f e.2)
  nodup := by
    rw [List.map_map]
    exact d.nodup

omit [DecidableEq κ] in
@[simp] theorem keys_mapValues {β : Type*} (d : InsertionDict κ α) (f : α → β) :
    (d.mapValues f).keys = d.keys :=
  List.map_map

/-- **What is read of what is made of the values.** -/
@[simp] theorem get?_mapValues {β : Type*} (d : InsertionDict κ α) (f : α → β) (k : κ) :
    (d.mapValues f).get? k = (d.get? k).map f := by
  unfold get? mapValues
  rw [List.find?_map, Option.map_map, Option.map_map]
  rfl

/-! ## Several pops -/

/-- The loop that pops each of some keys. -/
def popAll (d : InsertionDict κ α) (ks : List κ) : InsertionDict κ α := ks.foldl pop d

theorem entries_popAll (d : InsertionDict κ α) (ks : List κ) :
    (d.popAll ks).entries = d.entries.filter (·.1 ∉ ks) := by
  unfold popAll
  induction ks generalizing d with
  | nil => simp
  | cons k ks ih =>
    rw [List.foldl_cons, ih]
    show (d.entries.filter _).filter _ = _
    rw [List.filter_filter]
    refine List.filter_congr fun e _ => ?_
    simp [Bool.and_comm]

theorem keys_popAll (d : InsertionDict κ α) (ks : List κ) :
    (d.popAll ks).keys = d.keys.filter (· ∉ ks) := by
  rw [keys, entries_popAll, keys, List.filter_map]
  rfl

theorem mem_keys_popAll {d : InsertionDict κ α} {ks : List κ} {k : κ} :
    k ∈ (d.popAll ks).keys ↔ k ∈ d.keys ∧ k ∉ ks := by
  rw [keys_popAll]
  simp

theorem get?_popAll (d : InsertionDict κ α) (ks : List κ) (k : κ) :
    (d.popAll ks).get? k = if k ∈ ks then none else d.get? k := by
  ext a
  rw [get?_eq_some_iff, entries_popAll]
  split_ifs with hk
  · simp [hk]
  · simp [hk, get?_eq_some_iff]

/-- Different keys that are there are as many entries less. -/
theorem size_popAll {d : InsertionDict κ α} {ks : List κ} (hnodup : ks.Nodup)
    (hsub : ∀ k ∈ ks, k ∈ d.keys) : (d.popAll ks).size + ks.length = d.size := by
  have hperm : (d.keys.filter (· ∈ ks)).Perm ks :=
    (List.perm_ext_iff_of_nodup (d.nodup_keys.filter _) hnodup).mpr fun k => by
      simpa using hsub k
  rw [← length_keys, keys_popAll, ← hperm.length_eq, ← length_keys, add_comm]
  simpa using (List.length_eq_length_filter_add (l := d.keys) (· ∈ ks)).symm

/-! ## Assignments in a loop -/

/-- An assignment, where there is one to make. -/
def assign? (d : InsertionDict κ α) (e : Option (κ × α)) : InsertionDict κ α :=
  e.elim d fun e => d.set e.1 e.2

/-- An assignment to a key that is not there yet. -/
def default? (d : InsertionDict κ α) (e : Option (κ × α)) : InsertionDict κ α :=
  e.elim d fun e => if e.1 ∈ d.keys then d else d.set e.1 e.2

section Loop

variable {β : Type*} {f strong weak : β → Option (κ × α)} {xs : List β} {k : κ} {a : α}

/-- What an element assigns to a key. -/
def assigned (f : β → Option (κ × α)) (k : κ) (x : β) : Option α :=
  (f x).bind fun e => if e.1 = k then some e.2 else none

theorem assigned_eq_some_iff {x : β} : assigned f k x = some a ↔ f x = some (k, a) := by
  unfold assigned
  cases f x with
  | none => simp
  | some e =>
    obtain ⟨j, b⟩ := e
    by_cases hj : j = k
    · simp [hj]
    · simp [hj]

/-- An element assigns nothing to a key that it does not name. -/
theorem assigned_eq_none_iff {x : β} : assigned f k x = none ↔ ∀ b, f x ≠ some (k, b) := by
  simp only [Option.eq_none_iff_forall_ne_some, ne_eq, assigned_eq_some_iff]

theorem get?_assign? (d : InsertionDict κ α) (x : β) :
    (d.assign? (f x)).get? k = (assigned f k x).or (d.get? k) := by
  unfold assigned
  cases f x with
  | none => rfl
  | some e =>
    show (d.set e.1 e.2).get? k = _
    rw [get?_set, Option.bind_some]
    by_cases hk : k = e.1
    · rw [if_pos hk, if_pos hk.symm, Option.some_or]
    · rw [if_neg hk, if_neg (Ne.symm hk), Option.none_or]

theorem get?_default? (d : InsertionDict κ α) (x : β) :
    (d.default? (f x)).get? k = (d.get? k).or (assigned f k x) := by
  unfold assigned
  cases f x with
  | none => exact (Option.or_none ..).symm
  | some e =>
    show (if e.1 ∈ d.keys then d else d.set e.1 e.2).get? k = _
    rw [Option.bind_some]
    by_cases hk : e.1 = k
    · subst hk
      rw [if_pos rfl]
      split_ifs with hmem
      · obtain ⟨b, hb⟩ := Option.isSome_iff_exists.mp (isSome_get?.mpr hmem)
        rw [hb, Option.some_or]
      · rw [get?_set, if_pos rfl, get?_eq_none_iff.mpr hmem, Option.none_or]
    · rw [if_neg hk, Option.or_none]
      split_ifs
      · rfl
      · rw [get?_set, if_neg (Ne.symm hk)]

/-- The loop over a list in which some elements give an assignment. -/
def assignAll (d : InsertionDict κ α) (f : β → Option (κ × α)) (xs : List β) :
    InsertionDict κ α :=
  xs.foldl (fun d x => d.assign? (f x)) d

/-- **What is read after several assignments** is what the last one to the
key has written. -/
theorem get?_assignAll (d : InsertionDict κ α) (f : β → Option (κ × α)) (xs : List β) (k : κ) :
    (d.assignAll f xs).get? k = (xs.reverse.findSome? (assigned f k)).or (d.get? k) := by
  unfold assignAll
  induction xs generalizing d with
  | nil => rfl
  | cons x xs ih =>
    rw [List.foldl_cons, ih, get?_assign?, List.reverse_cons, List.findSome?_append,
      Option.or_assoc, List.findSome?_singleton]

theorem get?_assignAll_eq_some_iff : ((empty : InsertionDict κ α).assignAll f xs).get? k = some a
    ↔ ∃ as x bs, xs = as ++ x :: bs ∧ f x = some (k, a) ∧ ∀ y ∈ bs, ∀ b, f y ≠ some (k, b) := by
  rw [get?_assignAll, get?_empty, Option.or_none, List.findSome?_eq_some_iff]
  simp only [assigned_eq_some_iff, assigned_eq_none_iff]
  constructor
  · rintro ⟨bs, x, as, hsplit, hx, hbs⟩
    refine ⟨as.reverse, x, bs.reverse, ?_, hx, fun y hy => hbs y (List.mem_reverse.mp hy)⟩
    rw [← List.reverse_reverse xs, hsplit]
    simp
  · rintro ⟨as, x, bs, rfl, hx, hbs⟩
    exact ⟨bs.reverse, x, as.reverse, by simp, hx, fun y hy => hbs y (List.mem_reverse.mp hy)⟩

/-- The loop in which elements give assignments, and others only where there
is no entry yet. -/
def recordAll (d : InsertionDict κ α) (strong weak : β → Option (κ × α)) (xs : List β) :
    InsertionDict κ α :=
  xs.foldl (fun d x => (d.assign? (strong x)).default? (weak x)) d

/-- **What is read after such a loop**: the last of the assignments, or else
the first of the others. -/
theorem get?_recordAll (d : InsertionDict κ α) (xs : List β) (k : κ) :
    (d.recordAll strong weak xs).get? k = (xs.reverse.findSome? (assigned strong k)).or
      ((d.get? k).or (xs.findSome? (assigned weak k))) := by
  unfold recordAll
  induction xs generalizing d with
  | nil => exact (Option.or_none ..).symm
  | cons x xs ih =>
    have hfirst : (x :: xs).findSome? (assigned weak k)
        = (assigned weak k x).or (xs.findSome? (assigned weak k)) := by
      rw [← List.singleton_append, List.findSome?_append, List.findSome?_singleton]
    rw [List.foldl_cons, ih, get?_default?, get?_assign?, List.reverse_cons,
      List.findSome?_append, List.findSome?_singleton, hfirst]
    simp only [Option.or_assoc]

/-- Where nothing is assigned over an entry, the first stays. -/
theorem get?_recordAll_none : ((empty : InsertionDict κ α).recordAll (fun _ => none) weak xs).get? k
    = xs.findSome? (assigned weak k) := by
  have hnone : xs.reverse.findSome? (assigned (fun _ => none) k : β → Option α) = none :=
    List.findSome?_eq_none_iff.mpr fun _ _ => rfl
  rw [get?_recordAll, hnone, Option.none_or, get?_empty, Option.none_or]

/-! ## Lists under keys -/

/-- The loop that appends to the lists under its keys, as to those of a
`defaultdict(list)`. -/
def collectAll (d : InsertionDict κ (List α)) (f : β → Option (κ × α)) (xs : List β) :
    InsertionDict κ (List α) :=
  xs.foldl (fun d x => d.assign? ((f x).map fun e => (e.1, (d.get? e.1).getD [] ++ [e.2]))) d

/-- **What is under a key after such a loop**: what was, and all that came for
it. -/
theorem getD_collectAll (d : InsertionDict κ (List α)) (xs : List β) (k : κ) :
    ((d.collectAll f xs).get? k).getD [] = (d.get? k).getD [] ++ xs.filterMap (assigned f k) := by
  unfold collectAll
  induction xs generalizing d with
  | nil => exact (List.append_nil _).symm
  | cons x xs ih =>
    rw [List.foldl_cons, ih, List.filterMap_cons, assigned]
    cases f x with
    | none => rfl
    | some e =>
      show ((d.set e.1 _).get? k).getD [] ++ _ = _
      rw [get?_set, Option.bind_some]
      by_cases hk : e.1 = k
      · subst hk
        simp
      · simp [hk, Ne.symm hk]

/-- The keys after such a loop. -/
theorem mem_keys_collectAll (d : InsertionDict κ (List α)) (xs : List β) :
    k ∈ (d.collectAll f xs).keys ↔ k ∈ d.keys ∨ ∃ x ∈ xs, ∃ a, f x = some (k, a) := by
  unfold collectAll
  induction xs generalizing d with
  | nil => simp
  | cons x xs ih =>
    simp only [List.mem_cons, exists_eq_or_imp]
    rw [List.foldl_cons, ih, ← or_assoc]
    refine or_congr_left ?_
    cases f x with
    | none => simp [assign?]
    | some e =>
      show k ∈ (d.set e.1 _).keys ↔ _
      rw [mem_keys_set, or_comm]
      refine or_congr_right ⟨fun h => ⟨e.2, h ▸ rfl⟩, fun ⟨a, ha⟩ => ?_⟩
      rw [Option.some.inj ha]

/-- An entry after such a loop. -/
theorem get?_collectAll_eq_some {l : List α}
    (h : ((empty : InsertionDict κ (List α)).collectAll f xs).get? k = some l) :
    l = xs.filterMap (assigned f k) := by
  have hl := getD_collectAll (f := f) (empty : InsertionDict κ (List α)) xs k
  rw [h] at hl
  exact hl

end Loop

end InsertionDict
