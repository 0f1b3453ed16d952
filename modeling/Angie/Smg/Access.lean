import Angie.Smg.Provenance

/-!
# Which accesses are accepted

An access completes exactly when its pointer resolves to a region that is allocated and not freed
(`access_iff`). The offset of the pointer and the size of the region are not looked at, so an access beyond the end of
its region completes too (`access_beyond_end`).
-/

namespace Angie

open Exec Trace

/-- A region that an allocation created and that was not freed since. -/
def Live (es : GraphHistory) (oid : ObjectId) : Prop := 0 < oid ∧ Allocated es oid ∧ ¬ Freed es oid

section Access

variable [DataLayout] {es : GraphHistory} {s : MemState}

theorem live_iff (h : GraphRun es s) {oid : ObjectId} : Live es oid ↔ 0 < oid ∧ s.Exists oid := by
  unfold Live
  exact and_congr_right fun h0 => ((run_lifetimes h).live oid h0).symm

omit [DataLayout] in
theorem readValue_completes (hs : GraphOk s) {p : ValueId} (h0 : 0 < (s.resolve p).targetObjectId) (type : Ty) :
    ∃ v t, readValue p type s = .ok v t := by
  obtain ⟨o, ho⟩ := resolve_exists hs p
  obtain ⟨t, ht⟩ := readValue_of_memory hs (memory_region h0 ho) type
  exact ⟨_, t, ht⟩

omit [DataLayout] in
theorem writeValue_completes (hs : GraphOk s) {p : ValueId} (h0 : 0 < (s.resolve p).targetObjectId) (value : ValueId)
    (type : Ty) : ∃ t, writeValue p value type s = .ok () t := by
  obtain ⟨o, ho⟩ := resolve_exists hs p
  exact ⟨_, writeValue_region h0 ho⟩

/-- An access completes exactly when its pointer resolves to a live region, and else throws an exception that tells
the null object from the others. -/
theorem access_iff (h : GraphRun es s) (p value : ValueId) (type : Ty) :
    (Live es (s.resolve p).targetObjectId →
      (∃ v t, readValue p type s = .ok v t) ∧ ∃ t, writeValue p value type s = .ok () t) ∧
    (¬ Live es (s.resolve p).targetObjectId →
      ∃ t, readValue p type s =
          .error (if (s.resolve p).targetObjectId = 0 then .nullDereference else .invalidDereference) t ∧
        writeValue p value type s =
          .error (if (s.resolve p).targetObjectId = 0 then .nullDereference else .invalidDereference) t) := by
  have hs := run_graphOk h
  rw [live_iff h]
  constructor
  · rintro ⟨h0, _⟩
    exact ⟨readValue_completes hs h0 type, writeValue_completes hs h0 value type⟩
  · intro hn
    have htarget : (s.resolve p).targetObjectId = 0 ∨ (s.resolve p).targetObjectId = -1 ∨
        (s.resolve p).targetObjectId = -2 := by
      rcases resolve_target_cases hs p with h' | h' | h' | ⟨h0, hex⟩
      · exact Or.inl h'
      · exact Or.inr (Or.inl h')
      · exact Or.inr (Or.inr h')
      · exact absurd ⟨h0, hex⟩ hn
    exact ⟨s.touch p, readValue_error htarget, writeValue_error htarget⟩

/-- The bytes of the type at the offset of the pointer are within its region, as far as both are constants. -/
def InBounds (s : MemState) (p : ValueId) (type : Ty) : Prop :=
  ∀ (o : Object) (f n : Word), s.graph.objects[(s.resolve p).targetObjectId]? = some o →
    s.vc.constantContainer[(s.resolve p).targetOffset]? = some f → s.vc.constantContainer[o.size]? = some n →
    0 ≤ f.toInt ∧ f.toInt + type.getSizeOf ≤ n.toInt

end Access

/-! ## An access beyond the end -/

section Example

attribute [local instance] Ty.x86

/-- A byte is allocated and a pointer derived to the eighth byte after it. -/
def beyondEnd : GraphHistory × MemState :=
  play GraphOp.exec [] MemState.new
    [.allocateRegion (.int 8) .heap, .container (.createConstIntVal 8), .createDerivedPointer 1 3]

theorem beyondEnd_run : GraphRun beyondEnd.1 beyondEnd.2 := Run.play (Run.start rfl) (by decide +kernel)

theorem access_beyond_end : GraphRun beyondEnd.1 beyondEnd.2 ∧
    (∃ v t, readValue 4 (.int 8) beyondEnd.2 = .ok v t) ∧ (∃ t, writeValue 4 0 (.int 8) beyondEnd.2 = .ok () t) ∧
    ¬ InBounds beyondEnd.2 4 (.int 8) := by
  refine ⟨beyondEnd_run, ⟨_, _, rfl⟩, ⟨_, rfl⟩, fun h => ?_⟩
  have := (h _ 8 1 rfl rfl rfl).2
  exact absurd this (by decide)

/-- The region is live. -/
theorem access_beyond_end_live : (∃ v t, readValue 4 (.int 8) beyondEnd.2 = .ok v t) ∧
    ∃ t, writeValue 4 0 (.int 8) beyondEnd.2 = .ok () t :=
  (access_iff beyondEnd_run 4 0 (.int 8)).1
    ((live_iff beyondEnd_run).2 ⟨by decide +kernel, ⟨_, rfl⟩⟩)

end Example

end Angie
