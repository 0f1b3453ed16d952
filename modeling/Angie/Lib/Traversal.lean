import Mathlib.Data.Finset.Card
import Angie.Lib.FlowGraph

/-!
# Traversals that remember what they have seen

Two ways to go through a graph of finite extent. Both give up when the fuel is used up; an item is seen from the moment
it is met.

- `visit` goes into every item that is not seen yet at once, depth first. With more fuel than unseen items it ends
  (`visit_isSome`), and has seen what is reached from its items, each once (`visit_iff`).
- `collect` takes the items from a queue, and puts those not seen yet at its end (`enqueue`). With more fuel than queued
  and unseen items it ends (`collect_isSome`), and has seen what is reached from the items it started with, each once
  (`collect_iff`).
-/

namespace Traversal

open Relation FlowGraph

variable {α : Type}

def visit [DecidableEq α] (next : α → List α) : ℕ → List α → List α → Option (List α)
  | 0, _, _ => none
  | n + 1, items, seen =>
    items.foldlM (fun seen a => if a ∈ seen then some seen else visit next n (next a) (a :: seen)) seen

/-- The queue and the seen items after the items were met. -/
def enqueue [DecidableEq α] (items : List α) (queue seen : List α) : List α × List α :=
  items.foldl (fun qs a => if a ∈ qs.2 then qs else (qs.1 ++ [a], a :: qs.2)) (queue, seen)

def collect [DecidableEq α] (next : α → List α) : ℕ → List α → List α → Option (List α)
  | 0, _, _ => none
  | _ + 1, [], seen => some seen
  | n + 1, a :: queue, seen => collect next n (enqueue (next a) queue seen).1 (enqueue (next a) queue seen).2

variable {next : α → List α}

/-! ## Depth first -/

/-- What a traversal of the items adds: items that were not seen, reached from the given ones, which are seen
afterwards as are the successors of everything added. -/
structure Visits (next : α → List α) (items seen seen' : List α) : Prop where
  added : ∃ l, seen' = l ++ seen ∧ l.Nodup ∧ (∀ x ∈ l, x ∉ seen) ∧ (∀ x ∈ l, ∃ a ∈ items, Reach next a x) ∧
    ∀ x ∈ l, ∀ y ∈ next x, y ∈ seen'
  all : ∀ a ∈ items, a ∈ seen'

theorem Visits.subset {items seen seen' : List α} (h : Visits next items seen seen') : seen ⊆ seen' := by
  obtain ⟨l, rfl, -⟩ := h.added
  exact List.subset_append_right l seen

theorem Visits.nil (seen : List α) : Visits next [] seen seen :=
  ⟨⟨[], rfl, List.nodup_nil, by simp, by simp, by simp⟩, by simp⟩

theorem Visits.append {items items' seen seen' seen'' : List α} (h : Visits next items seen seen')
    (h' : Visits next items' seen' seen'') : Visits next (items ++ items') seen seen'' := by
  have hsub := h'.subset
  obtain ⟨l, rfl, hnd, hnew, hreach, hsucc⟩ := h.added
  obtain ⟨l', rfl, hnd', hnew', hreach', hsucc'⟩ := h'.added
  refine ⟨⟨l' ++ l, by rw [List.append_assoc], ?_, ?_, ?_, ?_⟩, ?_⟩
  · refine List.nodup_append.2 ⟨hnd', hnd, ?_⟩
    rintro a ha b hb rfl
    exact hnew' a ha (List.mem_append_left _ hb)
  · intro x hx
    rcases List.mem_append.1 hx with hx | hx
    · exact fun hs => hnew' x hx (List.mem_append_right _ hs)
    · exact hnew x hx
  · intro x hx
    rcases List.mem_append.1 hx with hx | hx
    · obtain ⟨a, ha, hr⟩ := hreach' x hx
      exact ⟨a, List.mem_append_right _ ha, hr⟩
    · obtain ⟨a, ha, hr⟩ := hreach x hx
      exact ⟨a, List.mem_append_left _ ha, hr⟩
  · intro x hx y hy
    rcases List.mem_append.1 hx with hx | hx
    · exact hsucc' x hx y hy
    · exact hsub (hsucc x hx y hy)
  · intro a ha
    rcases List.mem_append.1 ha with ha | ha
    · exact hsub (h.all a ha)
    · exact h'.all a ha

/-- Going into an item that was not seen. -/
theorem Visits.enter {a : α} {seen seen' : List α} (ha : a ∉ seen) (h : Visits next (next a) (a :: seen) seen') :
    Visits next [a] seen seen' := by
  have hall := h.all
  obtain ⟨l, rfl, hnd, hnew, hreach, hsucc⟩ := h.added
  refine ⟨⟨l ++ [a], by simp, ?_, ?_, ?_, ?_⟩, by simp⟩
  · refine List.nodup_append.2 ⟨hnd, List.nodup_singleton a, ?_⟩
    rintro x hx y hy rfl
    exact hnew x hx (by rw [List.mem_singleton.1 hy]; exact List.mem_cons_self)
  · intro x hx
    rcases List.mem_append.1 hx with hx | hx
    · exact fun hs => hnew x hx (List.mem_cons_of_mem a hs)
    · rwa [List.mem_singleton.1 hx]
  · intro x hx
    refine ⟨a, List.mem_singleton_self a, ?_⟩
    rcases List.mem_append.1 hx with hx | hx
    · obtain ⟨b, hb, hr⟩ := hreach x hx
      exact ReflTransGen.head hb hr
    · rw [List.mem_singleton.1 hx]
      exact .refl
  · intro x hx y hy
    rcases List.mem_append.1 hx with hx | hx
    · exact hsucc x hx y hy
    · rw [List.mem_singleton.1 hx] at hy
      exact hall y hy

/-- An item that was seen adds nothing. -/
theorem Visits.skip {a : α} {seen : List α} (ha : a ∈ seen) : Visits next [a] seen seen :=
  ⟨⟨[], rfl, List.nodup_nil, by simp, by simp, by simp⟩, by simpa using ha⟩

section Visit

variable [DecidableEq α]

theorem visits_of_visit : ∀ {n : ℕ} {items seen seen' : List α}, visit next n items seen = some seen' →
    Visits next items seen seen' := by
  intro n
  induction n with
  | zero => intro items seen seen' h; cases h
  | succ n ih =>
    intro items
    induction items with
    | nil =>
      intro seen seen' h
      cases h
      exact Visits.nil seen
    | cons a items ihitems =>
      intro seen seen' h
      rw [visit, List.foldlM_cons] at h
      obtain ⟨mid, hmid, hrest⟩ := Option.bind_eq_some_iff.1 h
      have hhead : Visits next [a] seen mid := by
        split at hmid
        · rename_i ha
          cases hmid
          exact Visits.skip ha
        · rename_i ha
          exact Visits.enter ha (ih hmid)
      exact hhead.append (ihitems hrest)

theorem visit_iff {n : ℕ} {items seen : List α} (h : visit next n items [] = some seen) :
    seen.Nodup ∧ ∀ x, x ∈ seen ↔ ∃ a ∈ items, Reach next a x := by
  have hv := visits_of_visit h
  have hall := hv.all
  obtain ⟨l, rfl, hnd, -, hreach, hsucc⟩ := hv.added
  rw [List.append_nil] at hall hsucc ⊢
  refine ⟨hnd, fun x => ⟨hreach x, ?_⟩⟩
  rintro ⟨a, ha, hr⟩
  induction hr with
  | refl => exact hall a ha
  | tail _ hb ih => exact hsucc _ ih _ hb

/-- The items of the universe that were not seen. -/
def unseen (U : Finset α) (seen : List α) : Finset α := U.filter (· ∉ seen)

theorem unseen_mono {U : Finset α} {seen seen' : List α} (h : seen ⊆ seen') :
    (unseen U seen').card ≤ (unseen U seen).card := by
  refine Finset.card_le_card fun x hx => ?_
  obtain ⟨hU, hx⟩ := Finset.mem_filter.1 hx
  exact Finset.mem_filter.2 ⟨hU, fun hs => hx (h hs)⟩

theorem unseen_cons {U : Finset α} {seen : List α} {a : α} (hU : a ∈ U) (ha : a ∉ seen) :
    (unseen U (a :: seen)).card + 1 = (unseen U seen).card := by
  have herase : unseen U (a :: seen) = (unseen U seen).erase a := by
    ext x
    simp only [unseen, Finset.mem_filter, Finset.mem_erase, List.mem_cons]
    tauto
  rw [herase]
  exact Finset.card_erase_add_one (Finset.mem_filter.2 ⟨hU, ha⟩)

theorem visit_isSome {U : Finset α} (hclosed : ∀ a ∈ U, ∀ b ∈ next a, b ∈ U) :
    ∀ {n : ℕ} {items seen : List α}, (∀ a ∈ items, a ∈ U) → (unseen U seen).card < n →
      ∃ seen', visit next n items seen = some seen' := by
  intro n
  induction n with
  | zero => intro items seen _ hn; exact absurd hn (Nat.not_lt_zero _)
  | succ n ih =>
    intro items
    induction items with
    | nil => exact fun _ _ => ⟨_, rfl⟩
    | cons a items ihitems =>
      intro seen hitems hn
      obtain ⟨haU, hitems⟩ := List.forall_mem_cons.1 hitems
      have hhead : ∃ mid, (if a ∈ seen then some seen else visit next n (next a) (a :: seen)) = some mid ∧
          seen ⊆ mid := by
        split
        · exact ⟨seen, rfl, List.Subset.refl seen⟩
        · rename_i ha
          have hcard := unseen_cons haU ha
          obtain ⟨mid, hmid⟩ := ih (hclosed a haU) (by omega : (unseen U (a :: seen)).card < n)
          exact ⟨mid, hmid, List.Subset.trans (List.subset_cons_self a seen) (visits_of_visit hmid).subset⟩
      obtain ⟨mid, hmid, hsub⟩ := hhead
      have hrest := ihitems hitems (Nat.lt_of_le_of_lt (unseen_mono hsub) hn)
      rw [visit, List.foldlM_cons, hmid]
      exact hrest

/-! ## With a queue -/

/-- Everything seen is waiting in the queue or has all its successors seen, and nothing was seen but what is reached
from the start. -/
structure Collects (next : α → List α) (items queue seen : List α) : Prop where
  nodup : seen.Nodup
  queued : ∀ a ∈ queue, a ∈ seen
  all : ∀ a ∈ items, a ∈ seen
  reach : ∀ x ∈ seen, ∃ a ∈ items, Reach next a x
  succ : ∀ x ∈ seen, x ∈ queue ∨ ∀ y ∈ next x, y ∈ seen

theorem enqueue_seen {a : α} {items queue seen : List α} (ha : a ∈ seen) :
    enqueue (a :: items) queue seen = enqueue items queue seen := by
  rw [enqueue, List.foldl_cons, if_pos ha]
  rfl

theorem enqueue_new {a : α} {items queue seen : List α} (ha : a ∉ seen) :
    enqueue (a :: items) queue seen = enqueue items (queue ++ [a]) (a :: seen) := by
  rw [enqueue, List.foldl_cons, if_neg ha]
  rfl

/-- What meeting items adds: the items that were not seen, each once, at both places. -/
structure Enqueues (items queue seen queue' seen' : List α) : Prop where
  nodup : seen.Nodup → seen'.Nodup
  queue : ∀ x, x ∈ queue' ↔ x ∈ queue ∨ x ∈ items ∧ x ∉ seen
  seen : ∀ x, x ∈ seen' ↔ x ∈ seen ∨ x ∈ items

theorem enqueues (items : List α) : ∀ queue seen : List α,
    Enqueues items queue seen (enqueue items queue seen).1 (enqueue items queue seen).2 := by
  induction items with
  | nil => exact fun queue seen => ⟨id, by simp [enqueue], by simp [enqueue]⟩
  | cons a items ih =>
    intro queue seen
    by_cases ha : a ∈ seen
    · rw [enqueue_seen ha]
      obtain ⟨hnd, hq, hs⟩ := ih queue seen
      refine ⟨hnd, fun x => ?_, fun x => ?_⟩
      · rw [hq, List.mem_cons]
        grind
      · rw [hs, List.mem_cons]
        grind
    · rw [enqueue_new ha]
      obtain ⟨hnd, hq, hs⟩ := ih (queue ++ [a]) (a :: seen)
      refine ⟨fun h => hnd (List.nodup_cons.2 ⟨ha, h⟩), fun x => ?_, fun x => ?_⟩
      · rw [hq]
        simp only [List.mem_append, List.mem_cons]
        grind
      · rw [hs]
        simp only [List.mem_cons]
        grind

variable {items queue seen : List α}

theorem collects_start (next : α → List α) (items : List α) :
    Collects next items (enqueue items [] []).1 (enqueue items [] []).2 := by
  obtain ⟨hnd, hq, hs⟩ := enqueues items [] []
  have hseen : ∀ x, x ∈ (enqueue items [] []).2 ↔ x ∈ items := by simpa using hs
  have hqueue : ∀ x, x ∈ (enqueue items [] []).1 ↔ x ∈ items := by simpa using hq
  refine ⟨hnd List.nodup_nil, fun a ha => ?_, fun a ha => (hseen a).2 ha, fun x hx => ?_, fun x hx => ?_⟩
  · exact (hseen a).2 ((hqueue a).1 ha)
  · exact ⟨x, (hseen x).1 hx, .refl⟩
  · exact Or.inl ((hqueue x).2 ((hseen x).1 hx))

/-- One round: the front leaves the queue after its successors were met. -/
theorem Collects.round {a : α} (h : Collects next items (a :: queue) seen) :
    Collects next items (enqueue (next a) queue seen).1 (enqueue (next a) queue seen).2 := by
  obtain ⟨hnd, hq, hs⟩ := enqueues (next a) queue seen
  refine ⟨hnd h.nodup, fun x hx => ?_, fun x hx => (hs x).2 (Or.inl (h.all x hx)), fun x hx => ?_, fun x hx => ?_⟩
  · rw [hs]
    rcases (hq x).1 hx with hx | ⟨hx, -⟩
    · exact Or.inl (h.queued x (List.mem_cons_of_mem a hx))
    · exact Or.inr hx
  · rcases (hs x).1 hx with hx | hx
    · exact h.reach x hx
    · obtain ⟨b, hb, hr⟩ := h.reach a (h.queued a List.mem_cons_self)
      exact ⟨b, hb, hr.tail hx⟩
  · by_cases hold : x ∈ seen
    · rcases h.succ x hold with hx | hsucc
      · rcases List.mem_cons.1 hx with rfl | hx
        · exact Or.inr fun y hy => (hs y).2 (Or.inr hy)
        · exact Or.inl ((hq x).2 (Or.inl hx))
      · exact Or.inr fun y hy => (hs y).2 (Or.inl (hsucc y hy))
    · have hnew := ((hs x).1 hx).resolve_left hold
      exact Or.inl ((hq x).2 (Or.inr ⟨hnew, hold⟩))

omit [DecidableEq α] in
theorem Collects.iff (h : Collects next items [] seen) :
    seen.Nodup ∧ ∀ x, x ∈ seen ↔ ∃ a ∈ items, Reach next a x := by
  refine ⟨h.nodup, fun x => ⟨h.reach x, ?_⟩⟩
  rintro ⟨a, ha, hr⟩
  induction hr with
  | refl => exact h.all a ha
  | tail _ hb ih => exact (h.succ _ ih).resolve_left List.not_mem_nil _ hb

theorem collects_of_collect : ∀ {n : ℕ} {queue seen seen' : List α}, Collects next items queue seen →
    collect next n queue seen = some seen' → Collects next items [] seen' := by
  intro n
  induction n with
  | zero => intro queue seen seen' _ h; cases h
  | succ n ih =>
    intro queue seen seen' hc h
    cases queue with
    | nil =>
      cases h
      exact hc
    | cons a queue => exact ih hc.round h

theorem collect_iff {n : ℕ} (h : collect next n (enqueue items [] []).1 (enqueue items [] []).2 = some seen) :
    seen.Nodup ∧ ∀ x, x ∈ seen ↔ ∃ a ∈ items, Reach next a x :=
  (collects_of_collect (collects_start next items) h).iff

/-- Items move from the unseen ones to the queue. -/
theorem enqueue_card {U : Finset α} : ∀ {items : List α} (queue seen : List α), (∀ a ∈ items, a ∈ U) →
    (enqueue items queue seen).1.length + (unseen U (enqueue items queue seen).2).card =
      queue.length + (unseen U seen).card := by
  intro items
  induction items with
  | nil => exact fun _ _ _ => rfl
  | cons a items ih =>
    intro queue seen hitems
    obtain ⟨haU, hitems⟩ := List.forall_mem_cons.1 hitems
    by_cases ha : a ∈ seen
    · rw [enqueue_seen ha]
      exact ih queue seen hitems
    · have hcard := unseen_cons haU ha
      rw [enqueue_new ha, ih (queue ++ [a]) (a :: seen) hitems, List.length_append, List.length_singleton]
      omega

theorem collect_isSome {U : Finset α} (hclosed : ∀ a ∈ U, ∀ b ∈ next a, b ∈ U) :
    ∀ {n : ℕ} {queue seen : List α}, (∀ a ∈ queue, a ∈ U) → queue.length + (unseen U seen).card < n →
      ∃ seen', collect next n queue seen = some seen' := by
  intro n
  induction n with
  | zero => intro queue seen _ hn; exact absurd hn (Nat.not_lt_zero _)
  | succ n ih =>
    intro queue seen hqueue hn
    cases queue with
    | nil => exact ⟨seen, rfl⟩
    | cons a queue =>
      obtain ⟨haU, hqueue⟩ := List.forall_mem_cons.1 hqueue
      have hcard := enqueue_card queue seen (hclosed a haU)
      refine ih (fun x hx => ?_) ?_
      · rcases ((enqueues (next a) queue seen).queue x).1 hx with hx | ⟨hx, -⟩
        · exact hqueue x hx
        · exact hclosed a haU x hx
      · rw [List.length_cons] at hn
        omega

end Visit

end Traversal
