import Mathlib.Tactic.SplitIfs
import LinearProgram.Simplex.Positions

/-!
# Loops over positions

What a loop over the positions of a list leaves in the list, or computes from it, if each of its
steps is within range.

* `sweep_invariant`: a loop ends where its steps lead.
* `sweep_update`: a loop that changes one entry after the other.
* `sweep_map`, `sweep_zipWith`: such a loop maps a list, or combines it with another one.
* `sweep_foldl`: a loop that reads one entry after the other.
* `findM?_range`, `anyM_range`: searches through positions.
-/

namespace LinearProgram.Simplex

variable {α β σ : Type} {items : List α} {start stop k n : Nat}

theorem some_bind (a : α) (f : α → Option β) : (some a >>= f) = f a := rfl

@[simp]
theorem below?_succ (n : Nat) : below? (n + 1) = some n := rfl

theorem update?_eq {f : α → Option α} {item changed : α} (hitem : items[k]? = some item)
    (hf : f item = some changed) : update? items k f = some (items.set k changed) := by
  simp [update?, hitem, hf]

theorem update?_some (g : α → α) {item : α} (hitem : items[k]? = some item) :
    update? items k (fun x => some (g x)) = some (items.set k (g item)) :=
  update?_eq hitem rfl

theorem update?_modify {f : α → Option α} {g : α → α} (hk : k < items.length)
    (hf : f items[k] = some (g items[k])) : update? items k f = some (items.modify k g) := by
  rw [update?_eq (List.getElem?_eq_getElem hk) hf]
  refine congrArg some (List.ext_getElem? fun i => ?_)
  rw [List.getElem?_set, List.getElem?_modify]
  by_cases hki : k = i
  · subst hki
    simp [hk]
  · simp [hki]

theorem put?_eq (hk : k < items.length) (item : α) : put? items k item = some (items.set k item) :=
  update?_eq (List.getElem?_eq_getElem hk) rfl

theorem overwrite?_eq {values : List α} (hcount : values.length ≤ items.length) :
    overwrite? items values values.length = some (values ++ items.drop values.length) := by
  rw [overwrite?, if_pos ⟨hcount, rfl⟩]

/-- **A loop ends where its steps lead.** -/
theorem sweep_invariant (step : σ → Nat → Option σ) (state : Nat → σ) (hle : start ≤ stop)
    (hstep : ∀ i, start ≤ i → i < stop → step (state i) i = some (state (i + 1))) :
    sweep start stop step (state start) = some (state stop) := by
  obtain ⟨n, rfl⟩ := Nat.exists_eq_add_of_le hle
  rw [sweep, Nat.add_sub_cancel_left]
  clear hle
  induction n generalizing start with
  | zero => rfl
  | succ n ih =>
    have hfirst := hstep start (Nat.le_refl _) (by omega)
    have hrest := @ih (start + 1) fun i hi hlt => hstep i (by omega) (by omega)
    have hstop : start + 1 + n = start + (n + 1) := by omega
    rw [hstop] at hrest
    simp only [List.range'_succ, List.foldlM_cons, hfirst, Option.bind_eq_bind, Option.bind_some,
      hrest]

/-- **A loop that changes one entry after the other** ends in a list that has the changed entries in
its range and the old ones outside of it. -/
theorem sweep_update {f : Nat → α → Option α} {targets : List α}
    (hlength : targets.length = items.length) (hle : start ≤ stop) (hstop : stop ≤ items.length)
    (hin : ∀ i item target, start ≤ i → i < stop → items[i]? = some item →
      targets[i]? = some target → f i item = some target)
    (hout : ∀ i, i < start ∨ stop ≤ i → targets[i]? = items[i]?) :
    sweep start stop (fun items i => update? items i (f i)) items = some targets := by
  -- before step `k`, the entries before `k` are those to end in
  let state k := targets.take k ++ items.drop k
  have hget : ∀ k i, k ≤ items.length →
      (state k)[i]? = if i < k then targets[i]? else items[i]? := by
    intro k i hk
    have htake : (targets.take k).length = k := by
      rw [List.length_take]
      omega
    by_cases hi : i < k
    · rw [List.getElem?_append_left (by omega), List.getElem?_take_of_lt hi, if_pos hi]
    · have hplace : k + (i - k) = i := by omega
      rw [List.getElem?_append_right (by omega), htake, List.getElem?_drop, hplace, if_neg hi]
  have hstart : state start = items := by
    refine List.ext_getElem? fun i => ?_
    rw [hget start i (by omega)]
    split
    · next hi => exact hout i (.inl hi)
    · rfl
  have hend : state stop = targets := by
    refine List.ext_getElem? fun i => ?_
    rw [hget stop i hstop]
    split
    · rfl
    · next hi => exact (hout i (.inr (Nat.le_of_not_lt hi))).symm
  have hsweep := sweep_invariant (fun items i => update? items i (f i)) state hle ?_
  · rwa [hstart, hend] at hsweep
  intro k hk hlt
  have hitem : items[k]? = some items[k] := List.getElem?_eq_getElem (by omega)
  have htarget : targets[k]? = some targets[k] := List.getElem?_eq_getElem (by omega)
  have hplace : (state k)[k]? = some items[k] := by
    rw [hget k k (by omega), if_neg (Nat.lt_irrefl k), hitem]
  rw [update?_eq hplace (hin k _ _ hk hlt hitem htarget)]
  refine congrArg some (List.ext_getElem? fun i => ?_)
  have hbound := (List.getElem?_eq_some_iff.1 hplace).1
  rw [List.getElem?_set, hget k i (by omega), hget (k + 1) i (by omega)]
  rcases Nat.lt_trichotomy i k with hi | rfl | hi
  · have hne : ¬k = i := by omega
    have hi' : i < k + 1 := by omega
    rw [if_neg hne, if_pos hi, if_pos hi']
  · rw [if_pos rfl, if_pos hbound, if_pos (Nat.lt_succ_self i), htarget]
  · have hne : ¬k = i := by omega
    have hi' : ¬i < k + 1 := by omega
    have hi'' : ¬i < k := by omega
    rw [if_neg hne, if_neg hi'', if_neg hi']

/-- A loop that changes all entries. -/
theorem sweep_all {f : Nat → α → Option α} {targets : List α} (hn : items.length = n)
    (hlength : targets.length = n)
    (hf : ∀ i item target, items[i]? = some item → targets[i]? = some target →
      f i item = some target) :
    sweep 0 n (fun items i => update? items i (f i)) items = some targets := by
  subst hn
  refine sweep_update hlength (Nat.zero_le _) (Nat.le_refl _)
    (fun i item target _ _ => hf i item target) fun i hi => ?_
  have hlt : items.length ≤ i := by omega
  rw [List.getElem?_eq_none hlt, List.getElem?_eq_none (by omega)]

/-- A loop that maps a list. -/
theorem sweep_map (f : α → α) (hn : items.length = n) :
    sweep 0 n (fun items i => update? items i fun x => some (f x)) items = some (items.map f) := by
  refine sweep_all hn (by rw [List.length_map, hn]) fun i item target hitem htarget => ?_
  rw [List.getElem?_map, hitem] at htarget
  exact htarget

/-- A loop that combines a list with another one. -/
theorem sweep_zipWith (f : α → β → α) {others : List β} (hn : items.length = n)
    (hothers : others.length = n) :
    sweep 0 n (fun items i => update? items i fun x => do return f x (← others[i]?)) items =
      some (List.zipWith f items others) := by
  refine sweep_all hn (by rw [List.length_zipWith]; omega) fun i item target hitem htarget => ?_
  have hlt := (List.getElem?_eq_some_iff.1 hitem).1
  have hother : others[i]? = some others[i] := List.getElem?_eq_getElem (by omega)
  rw [List.getElem?_zipWith, hitem, hother] at htarget
  rw [hother]
  exact htarget

/-- **A loop that reads one entry after the other.** Its state is the view of a state that keeps an
invariant. -/
theorem sweep_foldl (items : List α) (step : σ → Nat → Option σ) (view : β → σ)
    (next : β → α → β) (inv : β → Prop) {s : β} (hn : items.length = n) (hs : inv s)
    (hstep : ∀ s i item, inv s → items[i]? = some item →
      step (view s) i = some (view (next s item)) ∧ inv (next s item)) :
    sweep 0 n step (view s) = some (view (items.foldl next s)) ∧ inv (items.foldl next s) := by
  subst hn
  have hinv : ∀ k, inv ((items.take k).foldl next s) := by
    intro k
    induction k with
    | zero => exact hs
    | succ k ih =>
      rw [List.take_add_one, List.foldl_append]
      cases hitem : items[k]? with
      | none => exact ih
      | some item => exact (hstep _ k item ih hitem).2
  have hsweep := sweep_invariant step (fun k => view ((items.take k).foldl next s))
    (Nat.zero_le items.length) ?_
  · have hend := hinv items.length
    rw [List.take_length] at hsweep hend
    exact ⟨hsweep, hend⟩
  intro k _ hlt
  have hitem : items[k]? = some items[k] := List.getElem?_eq_getElem hlt
  rw [(hstep _ k _ (hinv k) hitem).1, List.take_add_one, hitem, List.foldl_append]
  rfl

/-- **A search through positions** finds the first place in the list. -/
theorem findM?_range (items : List α) (p : α → Bool) (q : Nat → Option Bool) (hn : n ≤ items.length)
    (hq : ∀ i item, i < n → items[i]? = some item → q i = some (p item)) :
    (List.range n).findM? q = some ((items.take n).findIdx? p) := by
  have hfrom : ∀ m start, start + m = n → (List.range' start m).findM? q =
      some ((((items.take n).drop start).findIdx? p).map (· + start)) := by
    intro m
    induction m with
    | zero =>
      intro start hstart
      have hnil : (items.take n).drop start = [] := by
        rw [List.drop_eq_nil_iff, List.length_take]
        omega
      rw [hnil]
      rfl
    | succ m ih =>
      intro start hstart
      have hlt : start < (items.take n).length := by
        rw [List.length_take]
        omega
      have hitem : items[start]? = some (items.take n)[start] := by
        rw [← List.getElem?_take_of_lt (by omega : start < n), List.getElem?_eq_getElem hlt]
      rw [List.range'_succ, List.findM?, hq start _ (by omega) hitem, List.drop_eq_getElem_cons hlt,
        List.findIdx?_cons, ih (start + 1) (by omega)]
      cases p (items.take n)[start] with
      | true => simp
      | false => simp [Nat.add_comm 1 start, Nat.add_assoc, Function.comp_def]
  have hall := hfrom n 0 (Nat.zero_add n)
  rw [List.drop_zero] at hall
  rw [List.range_eq_range', hall]
  simp

/-- A test of all positions. -/
theorem anyM_range {p : α → Bool} {q : Nat → Option Bool} (hn : items.length = n)
    (hq : ∀ i item, items[i]? = some item → q i = some (p item)) :
    (List.range n).anyM q = some (items.any p) := by
  subst hn
  have hfrom : ∀ m start, start + m = items.length →
      (List.range' start m).anyM q = some ((items.drop start).any p) := by
    intro m
    induction m with
    | zero =>
      intro start hstart
      rw [List.drop_eq_nil_of_le (by omega)]
      rfl
    | succ m ih =>
      intro start hstart
      have hlt : start < items.length := by omega
      rw [List.range'_succ, List.anyM, hq start _ (List.getElem?_eq_getElem hlt),
        List.drop_eq_getElem_cons hlt, List.any_cons, ih (start + 1) (by omega)]
      cases p items[start] <;> rfl
  rw [List.range_eq_range', hfrom _ _ (Nat.zero_add _), List.drop_zero]

/-- A test of all entries. -/
theorem allM_eq (items : List α) (p : α → Bool) (q : α → Option Bool)
    (hq : ∀ item ∈ items, q item = some (p item)) :
    items.allM q = some (items.all p) := by
  induction items with
  | nil => rfl
  | cons item items ih =>
    have hothers := ih fun other hother => hq other (List.mem_cons_of_mem item hother)
    rw [List.allM, hq item List.mem_cons_self, List.all_cons, hothers]
    cases p item <;> rfl

end LinearProgram.Simplex
