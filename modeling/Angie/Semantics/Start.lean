import Angie.Frontend.Constants
import Angie.Semantics.Files
import Angie.Semantics.Nodes

/-!
# Where the loop starts

The initial state of `Verify` covers the machine at the entry (`File.Verifies.covers`): nothing is known of the ids but
the constants, and every constant of the program that the machine knows was linked to the value of its word.
-/

namespace Angie

open Exec Llvm KeyedList

section Start

variable [DataLayout] {F : File} {s : VcState} {t : ParserState} {entry : NodeId} {es : Turns} {v : Verification}

/-- Constants are read as they are, and nothing is known of the other ids. -/
def Reading.start (vc : ValueContainer) : Reading where
  value v := (vc.constantContainer[v]?).elim .other .constant
  region _ := 0

section Reading

omit [DataLayout]

theorem start_constant (vc : ValueContainer) (v : ValueId) (u : Word) :
    vc.constantContainer[v]? = some u ↔ (Reading.start vc).value v = .constant u := by
  show _ ↔ (vc.constantContainer[v]?).elim _ _ = _
  cases vc.constantContainer[v]? <;> simp

theorem start_not_pointer {vc : ValueContainer} {v : ValueId} {b : ℕ} {o : Word} {k : Option ℕ} :
    (Reading.start vc).value v ≠ .pointer b o k := by
  show (vc.constantContainer[v]?).elim _ _ ≠ _
  cases vc.constantContainer[v]? <;> simp

/-- The only edge of a new graph is the handle of the null pointer. -/
theorem edge_new {s : VcState} {e : PtEdge} (h : (MemState.mk s.statics s.vc Graph.new).Edge e) :
    e = PtEdge.handle 0 0 := by
  rcases h with he | ⟨id, o, ho, he⟩
  · exact List.mem_singleton.1 he
  · rw [(new_object ho).2] at he
    cases he

end Reading

theorem start_mirrors {s : VcState} (hs : s.Prepared) :
    Mirrors (Reading.start s.vc) ⟨s.statics, s.vc, Graph.new⟩ [] 0 where
  constants := start_constant s.vc
  decided := by
    intro k c hc
    rw [hs.constrs] at hc
    simp at hc
  edges := by
    intro e he
    obtain rfl := edge_new he
    have hzero : (Reading.start s.vc).value 0 = .constant 0 := (start_constant s.vc 0 0).1 hs.zero
    exact Reading.fits_constant hzero (Or.inl rfl) hzero
  null := rfl
  pointers := fun v b o k hv => absurd hv start_not_pointer
  unique := fun v v' b o n hv => absurd hv start_not_pointer
  regions := nofun
  apart := nofun
  freed := nofun
  live := nofun

/-- The state that `Verify` starts with covers the machine at the node, if the constants of the program are bound. -/
theorem start_covers {P : Program} {s : VcState} (hs : s.Prepared) (hglobals : s.statics.Covers P.ctx.globalMapping)
    (hbinds : P.Binds ⟨s.statics, Reading.start s.vc⟩) (node : NodeId) :
    P.Covers s.statics (.new node s.vc) (Machine.start node) :=
  ⟨rfl, ⟨s.statics, Reading.start s.vc⟩, rfl,
    ⟨hs.ok.memory, hs.ok.path, hglobals, Statics.covers_empty _, nofun⟩, start_mirrors hs, hbinds, nofun, .nil⟩

omit [DataLayout] in
/-- Its word is the one that the container has for the constant. -/
theorem datum_word {c : Constant} {d : Datum} (h : c.datum = some d) : ∃ u, c.word = some u ∧ d.constant = some u := by
  cases c with
  | int c =>
    simp only [Constant.datum] at h
    split at h
    · cases h
      exact ⟨_, rfl, rfl⟩
    · cases h
  | nullPtr =>
    cases h
    exact ⟨0, rfl, rfl⟩
  | fp | cast | getElementPtr | otherExpr | function | globalVariable | other => cases h

/-- What the parser leaves is prepared, and every constant that the machine knows is bound. -/
theorem File.Verifies.binds (h : F.Verifies s t entry es v) (hs : s.Prepared) :
    t.Ready ∧ (F.program t).Binds ⟨t.statics, Reading.start t.vc⟩ := by
  obtain ⟨n, hparsed⟩ := h.parsed
  obtain ⟨u, -, ht, hlinks⟩ := parseWholeModule_ok hs hparsed
  refine ⟨ht, fun id d hid hd => ?_⟩
  have hmem : ∃ x ∈ t.constantValuesToBeCreated, x.id = id := by
    simp only [File.program] at hd
    split at hd
    · rename_i hany
      simpa using hany
    · cases hd
  obtain ⟨x, hx, rfl⟩ := hmem
  have hdatum : (F.constantAt x.id).datum = some d := by
    simp only [File.program] at hd
    split at hd
    · exact hd
    · cases hd
  obtain ⟨w, hword, hconst⟩ := datum_word hdatum
  have hsame : t.constantValuesToBeCreated = u.constantValuesToBeCreated := by rw [hlinks.frame]; rfl
  obtain ⟨vid, hvid, hval⟩ := hlinks.linked x (hsame ▸ hx)
  exact ⟨vid, w, hvid, ht.covers _ _ hvid, hconst, (start_constant _ _ _).1 (hval w hword)⟩

/-- The loop starts in a state that covers the machine. -/
theorem File.Verifies.covers (h : F.Verifies s t entry es v) (hs : s.Prepared) :
    (F.program t).Covers t.statics (.new entry t.vc) (Machine.start entry) := by
  obtain ⟨hready, hbinds⟩ := h.binds hs
  exact start_covers (P := F.program t) (s := t.toVc) hready.prepared hready.covers hbinds entry

end Start

end Angie
