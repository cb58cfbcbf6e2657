import DocQuery.Value.Order

/-! The order of values is total: two values are never in both orders, and
orders of values compose. Values that it does not tell apart, as a whole number
and an equal double or two objects with equally many fields, are in the same
order with every other value. -/
namespace DocQuery

theorem compare_swap {α : Type} [Ord α] [Std.OrientedOrd α] (a b : α) :
    compare a b = (compare b a).swap :=
  Std.OrientedOrd.eq_swap

/-- If one thing is not after another and this is not after a third, the first
is to the third what the two steps make of it. -/
theorem compare_of_isLE {α : Type} [Ord α] [Std.TransOrd α] (a b c : α)
    (hFirst : (compare a b).isLE = true) (hSecond : (compare b c).isLE = true) :
    compare a c = (compare a b).then (compare b c) := by
  cases hStep : compare a b with
  | lt => exact Std.TransCmp.lt_of_lt_of_isLE hStep hSecond
  | eq => exact Std.TransCmp.congr_left hStep
  | gt => simp [hStep] at hFirst

namespace Value

/-- Values of different types are in the order of their ranks. -/
theorem order_of_rank_ne {a b : Value} (h : a.rank ≠ b.rank) :
    a.order b = compare a.rank b.rank := by
  cases a <;> cases b <;> first | rfl | exact absurd rfl h

theorem rank_le_of_isLE {a b : Value} (h : (a.order b).isLE = true) : a.rank ≤ b.rank := by
  by_cases hRank : a.rank = b.rank
  · exact Nat.le_of_eq hRank
  · rw [order_of_rank_ne hRank] at h
    exact Nat.isLE_compare.mp h

theorem order_of_rank_lt {a b : Value} (h : a.rank < b.rank) : a.order b = .lt := by
  rw [order_of_rank_ne (Nat.ne_of_lt h)]
  exact Nat.compare_eq_lt.mpr h

mutual

/-- The order read from the other side. -/
theorem order_swap (a b : Value) : b.order a = (a.order b).swap := by
  by_cases hRank : a.rank = b.rank
  · cases a with
    | null =>
        cases b with
        | null => rfl
        | _ => simp [rank] at hRank
    | bool p =>
        cases b with
        | bool q => exact compare_swap q.toNat p.toNat
        | _ => simp [rank] at hRank
    | number m =>
        cases b with
        | number n => exact compare_swap n.toDouble.units m.toDouble.units
        | _ => simp [rank] at hRank
    | string s =>
        cases b with
        | string t => exact compare_swap t s
        | _ => simp [rank] at hRank
    | array xs =>
        cases b with
        | array ys => exact orderItems_swap xs ys
        | _ => simp [rank] at hRank
    | object xs =>
        cases b with
        | object ys => exact compare_swap ys.length xs.length
        | _ => simp [rank] at hRank
  · rw [order_of_rank_ne hRank, order_of_rank_ne (Ne.symm hRank)]
    exact compare_swap b.rank a.rank

theorem orderItems_swap (xs ys : List Value) : orderItems ys xs = (orderItems xs ys).swap := by
  cases xs with
  | nil => cases ys <;> rfl
  | cons x xs =>
      cases ys with
      | nil => rfl
      | cons y ys =>
          rw [orderItems, orderItems, order_swap x y, orderItems_swap xs ys, Ordering.swap_then]

end

mutual

/-- Two steps that do not go down make one. -/
theorem order_of_isLE (a b c : Value) (hFirst : (a.order b).isLE = true)
    (hSecond : (b.order c).isLE = true) : a.order c = (a.order b).then (b.order c) := by
  have hLower := rank_le_of_isLE hFirst
  have hUpper := rank_le_of_isLE hSecond
  by_cases hRank : a.rank = b.rank ∧ b.rank = c.rank
  · cases a with
    | null =>
        cases b with
        | null =>
            cases c with
            | null => rfl
            | _ => simp [rank] at hRank
        | _ => simp [rank] at hRank
    | bool p =>
        cases b with
        | bool q =>
            cases c with
            | bool r => exact compare_of_isLE p.toNat q.toNat r.toNat hFirst hSecond
            | _ => simp [rank] at hRank
        | _ => simp [rank] at hRank
    | number m =>
        cases b with
        | number n =>
            cases c with
            | number o =>
                exact compare_of_isLE m.toDouble.units n.toDouble.units o.toDouble.units hFirst
                  hSecond
            | _ => simp [rank] at hRank
        | _ => simp [rank] at hRank
    | string s =>
        cases b with
        | string t =>
            cases c with
            | string u => exact compare_of_isLE s t u hFirst hSecond
            | _ => simp [rank] at hRank
        | _ => simp [rank] at hRank
    | array xs =>
        cases b with
        | array ys =>
            cases c with
            | array zs => exact orderItems_of_isLE xs ys zs hFirst hSecond
            | _ => simp [rank] at hRank
        | _ => simp [rank] at hRank
    | object xs =>
        cases b with
        | object ys =>
            cases c with
            | object zs => exact compare_of_isLE xs.length ys.length zs.length hFirst hSecond
            | _ => simp [rank] at hRank
        | _ => simp [rank] at hRank
  · by_cases hStep : a.rank = b.rank
    · have hNext : b.rank < c.rank := by omega
      rw [order_of_rank_lt hNext, order_of_rank_lt (hStep ▸ hNext)]
      cases hCase : a.order b <;> simp_all
    · have hNext : a.rank < b.rank := by omega
      rw [order_of_rank_lt hNext, order_of_rank_lt (Nat.lt_of_lt_of_le hNext hUpper)]
      rfl

theorem orderItems_of_isLE (xs ys zs : List Value) (hFirst : (orderItems xs ys).isLE = true)
    (hSecond : (orderItems ys zs).isLE = true) :
    orderItems xs zs = (orderItems xs ys).then (orderItems ys zs) := by
  cases xs with
  | nil =>
      cases ys with
      | nil => rfl
      | cons y ys =>
          cases zs with
          | nil => simp [orderItems] at hSecond
          | cons z zs => rfl
  | cons x xs =>
      cases ys with
      | nil => simp [orderItems] at hFirst
      | cons y ys =>
          cases zs with
          | nil => simp [orderItems] at hSecond
          | cons z zs =>
              rw [orderItems] at hFirst hSecond
              rw [Ordering.isLE_then_iff_and] at hFirst hSecond
              rw [orderItems, orderItems, orderItems, order_of_isLE x y z hFirst.1 hSecond.1]
              cases hHead : x.order y with
              | lt => rfl
              | gt => simp [hHead] at hFirst
              | eq =>
                  have hTail : (orderItems xs ys).isLE = true := by simpa [hHead] using hFirst.2
                  cases hNext : y.order z with
                  | lt =>
                      cases hCase : orderItems xs ys <;> simp_all
                  | gt => simp [hNext] at hSecond
                  | eq =>
                      have hRest : (orderItems ys zs).isLE = true := by
                        simpa [hNext] using hSecond.2
                      simpa using orderItems_of_isLE xs ys zs hTail hRest

end

instance : Std.OrientedCmp Value.order where
  eq_swap := order_swap _ _

instance : Std.TransCmp Value.order where
  isLE_trans {a b c} hFirst hSecond := by
    rw [order_of_isLE a b c hFirst hSecond]
    exact Ordering.isLE_then_iff_and.mpr ⟨hFirst, Or.inr hSecond⟩

end Value

end DocQuery
