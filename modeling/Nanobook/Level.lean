import Nanobook.Order

/-!
# A price level

`level.rs`: the FIFO queue of the order ids at one price.  A cancelled order is not taken out of
the queue: its slot is overwritten with the tombstone id `0`, and `front`, `popFront` and `compact`
drop tombstones later.  They all shift the slots behind, which is why an index recorded when an
order was pushed need not name its slot for long.
-/

namespace Nanobook

structure Level where
  price : Price
  orders : List OrderId
  /-- Cached sum of the remaining quantities. -/
  totalQuantity : Quantity
  tombstoneCount : Nat
deriving DecidableEq, Repr

namespace Level

/-- `Level::new`. -/
def create (price : Price) : Level := ⟨price, [], 0, 0⟩

def isEmpty (l : Level) : Bool := l.totalQuantity = 0

/-- The queued order ids in FIFO order, tombstones left out. -/
def iter (l : Level) : List OrderId := l.orders.filter (· ≠ 0)

/-- The loop shared by `front` and `pop_front`: pop tombstones off the head of the queue. -/
def dropTombstones : List OrderId → Nat → List OrderId × Nat
  | [], count => ([], count)
  | id :: ids, count => if id = 0 then dropTombstones ids (count - 1) else (id :: ids, count)

/-- The level after `front`, which skips tombstones by removing them. -/
def skipTombstones (l : Level) : Level :=
  let (orders, count) := dropTombstones l.orders l.tombstoneCount
  { l with orders := orders, tombstoneCount := count }

/-- The id `front` returns. -/
def front (l : Level) : Option OrderId := l.skipTombstones.orders.head?

def pushBack (l : Level) (orderId : OrderId) (quantity : Quantity) : Level :=
  { l with
    orders := l.orders ++ [orderId]
    totalQuantity := saturatingAdd l.totalQuantity quantity }

/-- The level after `pop_front`; no caller looks at the id it returns. -/
def popFront (l : Level) (quantity : Quantity) : Level :=
  match l.skipTombstones.orders with
  | [] => l.skipTombstones
  | _ :: ids =>
      { l.skipTombstones with orders := ids, totalQuantity := l.totalQuantity - quantity }

def markTombstone (l : Level) (index : Nat) (quantity : Quantity) : Level :=
  match l.orders[index]? with
  | none => l
  | some id =>
      if id = 0 then l
      else
        { l with
          orders := l.orders.set index 0
          totalQuantity := l.totalQuantity - quantity
          tombstoneCount := l.tombstoneCount + 1 }

def compact (l : Level) : Level :=
  if l.tombstoneCount = 0 then l
  else { l with orders := l.orders.filter (· ≠ 0), tombstoneCount := 0 }

def decreaseQuantity (l : Level) (amount : Quantity) : Level :=
  { l with totalQuantity := l.totalQuantity - amount }

/-! ## The queue without tombstones -/

/-- The tombstones are counted exactly. -/
def Tallied (l : Level) : Prop := l.tombstoneCount = l.orders.count 0

@[simp] theorem iter_create (p : Price) : (create p).iter = [] := rfl

@[simp] theorem iter_decreaseQuantity (l : Level) (q : Quantity) :
    (l.decreaseQuantity q).iter = l.iter := rfl

theorem mem_iter {l : Level} {id : OrderId} : id ∈ l.iter ↔ id ∈ l.orders ∧ id ≠ 0 := by
  simp [iter]

theorem iter_pushBack (l : Level) {id : OrderId} (h : id ≠ 0) (q : Quantity) :
    (l.pushBack id q).iter = l.iter ++ [id] := by
  simp [iter, pushBack, h]

theorem filter_dropTombstones (ids : List OrderId) (n : Nat) :
    (dropTombstones ids n).1.filter (· ≠ 0) = ids.filter (· ≠ 0) := by
  induction ids generalizing n with
  | nil => rfl
  | cons id ids ih =>
      simp only [dropTombstones]
      split_ifs with h
      · simpa [h] using ih (n - 1)
      · rfl

/-- Once its head is free of tombstones, the queue starts with the first live id. -/
theorem dropTombstones_eq (ids : List OrderId) (n : Nat) :
    (dropTombstones ids n).1 = [] ∧ ids.filter (· ≠ 0) = [] ∨
      ∃ id rest, (dropTombstones ids n).1 = id :: rest ∧ id ≠ 0 ∧
        ids.filter (· ≠ 0) = id :: rest.filter (· ≠ 0) := by
  induction ids generalizing n with
  | nil => exact .inl ⟨rfl, rfl⟩
  | cons id ids ih =>
      simp only [dropTombstones]
      split_ifs with h
      · simpa [h] using ih (n - 1)
      · exact .inr ⟨id, ids, rfl, h, by simp [h]⟩

theorem dropTombstones_count {ids : List OrderId} {n : Nat} (h : n = ids.count 0) :
    (dropTombstones ids n).2 = (dropTombstones ids n).1.count 0 := by
  induction ids generalizing n with
  | nil => simpa [dropTombstones] using h
  | cons id ids ih =>
      simp only [dropTombstones]
      split_ifs with hid
      · refine ih ?_
        rw [h, hid, List.count_cons_self]
        rfl
      · exact h

@[simp] theorem skipTombstones_price (l : Level) : l.skipTombstones.price = l.price := rfl

@[simp] theorem skipTombstones_totalQuantity (l : Level) :
    l.skipTombstones.totalQuantity = l.totalQuantity := rfl

@[simp] theorem iter_skipTombstones (l : Level) : l.skipTombstones.iter = l.iter :=
  filter_dropTombstones l.orders l.tombstoneCount

theorem front_eq (l : Level) : l.front = l.iter.head? := by
  simp only [front, skipTombstones, iter]
  rcases dropTombstones_eq l.orders l.tombstoneCount with ⟨h, h'⟩ | ⟨id, rest, h, -, h'⟩
  · rw [h, h']
  · rw [h, h']; rfl

/-- After `front` the first live id sits in slot `0`. -/
theorem skipTombstones_orders {l : Level} {id : OrderId} {ids : List OrderId}
    (h : l.iter = id :: ids) :
    ∃ rest, l.skipTombstones.orders = id :: rest ∧ rest.filter (· ≠ 0) = ids := by
  simp only [iter] at h
  simp only [skipTombstones]
  rcases dropTombstones_eq l.orders l.tombstoneCount with ⟨-, h'⟩ | ⟨id', rest, h₁, -, h'⟩
  · rw [h'] at h; cases h
  · rw [h'] at h; cases h; exact ⟨rest, h₁, rfl⟩

theorem tallied_skipTombstones {l : Level} (h : l.Tallied) : l.skipTombstones.Tallied :=
  dropTombstones_count h

@[simp] theorem popFront_price (l : Level) (q : Quantity) : (l.popFront q).price = l.price := by
  simp only [popFront]; split <;> rfl

theorem iter_popFront (l : Level) (q : Quantity) : (l.popFront q).iter = l.iter.tail := by
  simp only [popFront]
  cases h : l.iter with
  | nil =>
      split
      · rw [iter_skipTombstones, h]; rfl
      · next id ids hs =>
          have := l.iter_skipTombstones
          rw [h] at this
          simp only [iter, hs, List.filter_eq_nil_iff] at this ⊢
          simpa using fun a ha ↦ this a (List.mem_cons_of_mem _ ha)
  | cons id ids =>
      obtain ⟨rest, hs, hr⟩ := skipTombstones_orders h
      rw [hs]
      simpa [iter] using hr

theorem popFront_totalQuantity {l : Level} (h : l.iter ≠ []) (q : Quantity) :
    (l.popFront q).totalQuantity = l.totalQuantity - q := by
  obtain ⟨id, ids, hid⟩ := List.exists_cons_of_ne_nil h
  obtain ⟨rest, hs, -⟩ := skipTombstones_orders hid
  simp [popFront, hs]

theorem tallied_popFront {l : Level} (h : l.Tallied) (q : Quantity) : (l.popFront q).Tallied := by
  have hs := tallied_skipTombstones h
  have hd := dropTombstones_eq l.orders l.tombstoneCount
  simp only [popFront]
  split
  · exact hs
  · next id ids hids =>
      simp only [Tallied, hids] at hs ⊢
      rw [hs]
      rcases hd with ⟨h', -⟩ | ⟨id', rest, h', hne, -⟩
      · rw [skipTombstones] at hids
        simp only at hids
        rw [h'] at hids
        cases hids
      · rw [skipTombstones] at hids
        simp only at hids
        rw [h'] at hids
        cases hids
        rw [List.count_cons_of_ne hne]

@[simp] theorem iter_compact (l : Level) : l.compact.iter = l.iter := by
  simp only [compact]
  split_ifs
  · rfl
  · simp [iter]

@[simp] theorem compact_totalQuantity (l : Level) : l.compact.totalQuantity = l.totalQuantity := by
  simp only [compact]; split_ifs <;> rfl

@[simp] theorem compact_price (l : Level) : l.compact.price = l.price := by
  simp only [compact]; split_ifs <;> rfl

theorem tallied_compact {l : Level} (h : l.Tallied) : l.compact.Tallied := by
  simp only [compact]
  split_ifs with h₀
  · exact h
  · refine (List.count_eq_zero.mpr fun hmem ↦ ?_).symm
    simp at hmem

theorem tallied_pushBack {l : Level} (h : l.Tallied) {id : OrderId} (hid : id ≠ 0) (q : Quantity) :
    (l.pushBack id q).Tallied := by
  simp only [Tallied, pushBack, List.count_append] at h ⊢
  rw [h, List.count_singleton]
  simp [hid]

/-! ## Tombstones -/

@[simp] theorem markTombstone_price (l : Level) (i : Nat) (q : Quantity) :
    (l.markTombstone i q).price = l.price := by
  simp only [markTombstone]
  split
  · rfl
  · split_ifs <;> rfl

/-- Overwriting a live slot. -/
theorem markTombstone_of_slot {l : Level} {i : Nat} {id : OrderId} (h : l.orders[i]? = some id)
    (hid : id ≠ 0) (q : Quantity) :
    l.markTombstone i q =
      { l with
        orders := l.orders.set i 0
        totalQuantity := l.totalQuantity - q
        tombstoneCount := l.tombstoneCount + 1 } := by
  simp [markTombstone, h, hid]

/-- A slot that is missing or already a tombstone is left alone. -/
theorem markTombstone_of_dead {l : Level} {i : Nat} (h : ∀ id, l.orders[i]? = some id → id = 0)
    (q : Quantity) : l.markTombstone i q = l := by
  simp only [markTombstone]
  split
  · rfl
  · next id hid => rw [if_pos (h id hid)]

theorem filter_set_zero {ids : List OrderId} {i : Nat} {id : OrderId} (h : ids[i]? = some id)
    (hid : id ≠ 0) (hnd : (ids.filter (· ≠ 0)).Nodup) :
    (ids.set i 0).filter (· ≠ 0) = (ids.filter (· ≠ 0)).erase id := by
  induction ids generalizing i with
  | nil => simp at h
  | cons hd tl ih =>
      cases i with
      | zero =>
          obtain rfl : hd = id := by simpa using h
          simp [hid]
      | succ i =>
          have h' : tl[i]? = some id := by simpa using h
          by_cases hhd : hd = 0
          · subst hhd
            simpa using ih h' (by simpa using hnd)
          · have hmem : id ∈ tl.filter (· ≠ 0) := by
              simpa [hid] using List.mem_of_getElem? h'
            have hne : hd ≠ id := by
              rintro rfl
              rw [List.filter_cons_of_pos (by simpa using hhd)] at hnd
              exact (List.nodup_cons.mp hnd).1 hmem
            rw [List.set_cons_succ, List.filter_cons_of_pos (by simpa using hhd),
              List.filter_cons_of_pos (by simpa using hhd),
              List.erase_cons_tail (by simpa using hne)]
            congr 1
            refine ih h' ?_
            rw [List.filter_cons_of_pos (by simpa using hhd)] at hnd
            exact (List.nodup_cons.mp hnd).2

/-- Overwriting the slot of a live id deletes it from the queue and keeps the rest in order. -/
theorem iter_markTombstone {l : Level} {i : Nat} {id : OrderId} (h : l.orders[i]? = some id)
    (hid : id ≠ 0) (hnd : l.iter.Nodup) (q : Quantity) :
    (l.markTombstone i q).iter = l.iter.erase id := by
  rw [markTombstone_of_slot h hid]
  exact filter_set_zero h hid hnd

theorem filter_set_sublist (ids : List OrderId) (i : Nat) :
    ((ids.set i 0).filter (· ≠ 0)).Sublist (ids.filter (· ≠ 0)) := by
  induction ids generalizing i with
  | nil => simp
  | cons hd tl ih =>
      cases i with
      | zero =>
          simp only [List.set_cons_zero]
          by_cases hhd : hd = 0 <;> simp [hhd]
      | succ i =>
          simp only [List.set_cons_succ]
          by_cases hhd : hd = 0
          · simpa [hhd] using ih i
          · simpa [hhd] using ih i

theorem iter_markTombstone_sublist (l : Level) (i : Nat) (q : Quantity) :
    (l.markTombstone i q).iter.Sublist l.iter := by
  cases h : l.orders[i]? with
  | none =>
      have hdead : ∀ j, l.orders[i]? = some j → j = 0 := by simp [h]
      simp only [markTombstone_of_dead hdead, List.Sublist.refl]
  | some id =>
      by_cases hid : id = 0
      · have hdead : ∀ j, l.orders[i]? = some j → j = 0 := by simp [h, hid]
        simp only [markTombstone_of_dead hdead, List.Sublist.refl]
      · rw [markTombstone_of_slot h hid]
        exact filter_set_sublist l.orders i

theorem tallied_markTombstone {l : Level} (h : l.Tallied) (i : Nat) (q : Quantity) :
    (l.markTombstone i q).Tallied := by
  cases hs : l.orders[i]? with
  | none => rw [markTombstone_of_dead (by simp [hs])]; exact h
  | some id =>
      by_cases hid : id = 0
      · rw [markTombstone_of_dead (by simp [hs, hid])]; exact h
      · rw [markTombstone_of_slot hs hid]
        obtain ⟨hi, hget⟩ := List.getElem?_eq_some_iff.mp hs
        simp only [Tallied] at h ⊢
        rw [h, List.count_set hi, hget]
        simp [hid]

end Level

end Nanobook
