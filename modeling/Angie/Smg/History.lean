import Angie.Smg.Frame

/-!
# Stale reads

The writes to a region, latest first, and what a read of it finds among them. Plain values and known pointers are kept
apart, each by the id of the offset only, so that a read finds the last write of its kind at its offset, however wide it
was and whatever was written to the bytes since.

- `run_views`: the cells of a region hold what the last writes of either kind put there;
- `readValue_noStale_iff`: a read returns the value of a write that covers its bytes and that no later write may have
  touched, or a made-up one, exactly when the write it finds is such a write;
- `readValue_stale`: a pointer that was overwritten by a plain value is read back.
-/

namespace Angie

open Exec KeyedList TwoView Trace

/-! ## Writes -/

/-- A write to a region: `known` tells whether the value was a known pointer. -/
structure Write where
  offset : ValueId
  size : ℕ
  value : ValueId
  pointer : Bool
  known : Bool
  deriving DecidableEq, Repr

namespace Write

/-- The write is stored as a plain value at the offset. -/
def plainAt (k : ValueId) (w : Write) : Bool := w.offset == k && !(w.pointer && w.known)

/-- The write stores or hides a pointer at the offset. -/
def pointerAt (k : ValueId) (w : Write) : Bool := w.offset == k && w.pointer

/-- The write covers the `n` bytes at the offset `f`. -/
def Covers (s : MemState) (w : Write) (f : ValueId) (n : ℕ) : Prop :=
  (w.offset = f ∧ n ≤ w.size) ∨
  ∃ g c : Word, s.vc.constantContainer[w.offset]? = some g ∧ s.vc.constantContainer[f]? = some c ∧
    g.toInt ≤ c.toInt ∧ c.toInt + n ≤ g.toInt + w.size

/-- A later write `w'` may have touched the `n` bytes at the offset `f` that `w` wrote. -/
def MayTouch (s : MemState) (w' w : Write) (f : ValueId) (n : ℕ) : Prop :=
  (w'.offset = f ∧ w'.pointer ≠ w.pointer) ∨
  (∃ g c : Word, s.vc.constantContainer[w'.offset]? = some g ∧ s.vc.constantContainer[f]? = some c ∧
    Overlap c n g w'.size) ∨
  s.vc.constantContainer[w'.offset]? = none

end Write

/-- A write of `size` bytes through the edge, if this goes to the region. -/
def MemState.writeThrough (s : MemState) (edge : PtEdge) (value : ValueId) (size : ℕ) (pointer : Bool)
    (oid : ObjectId) : Option Write :=
  if edge.targetObjectId = oid then
    some ⟨edge.targetOffset, size, value, pointer, s.graph.existsPtEdge value⟩
  else none

section History

variable [DataLayout]

/-- The write of the operation to the region; `Memclear` writes zero over its bytes. -/
def GraphOp.written (oid : ObjectId) (s : MemState) : GraphOp → Option Write
  | .writeValue p v t => s.writeThrough (s.resolve p) v t.getSizeOf t.isPointer oid
  | .memclear p n =>
    match s.vc.constantContainer[n]? with
    | none => none
    | some m =>
      match Angie.createDerivedPointer p 0 s with
      | .error _ _ => none
      | .ok d t => t.writeThrough d.2 t.vc.zero m.toNat false oid
  | _ => none

/-- The writes to the region. -/
def writes (oid : ObjectId) (es : GraphHistory) : List Write := es.filterMap fun e => e.op.written oid e.pre

omit [DataLayout] in
/-- The write that a read at the offset finds, with the writes after it. -/
def visible (ws : List Write) (f : ValueId) (forPointer : Bool) : Option (List Write × Write) :=
  if forPointer then
    match latest (Write.pointerAt f) ws with
    | some (later, w) => if w.known then some (later, w) else latest (Write.plainAt f) ws
    | none => latest (Write.plainAt f) ws
  else latest (Write.plainAt f) ws

omit [DataLayout] in
/-- A read of the cell returned the value as a new one. -/
def MadeUp (oid : ObjectId) (f : ValueId) (es : GraphHistory) (v : ValueId) : Prop :=
  ∃ e ∈ es, ∃ p t, e.op = .readValue p t ∧ (e.pre.resolve p).targetObjectId = oid ∧
    (e.pre.resolve p).targetOffset = f ∧ e.out = .ok (some v) ∧ e.pre.statics.nextIdToGive = v

variable {es : GraphHistory} {s : MemState} {oid : ObjectId}

/-! ## Writes and effects -/

omit [DataLayout] in
theorem writeEffect_at (s : MemState) (edge : PtEdge) (value : ValueId) (type : Ty) (size : ℕ) (oid : ObjectId)
    (k : ValueId) :
    (s.writeEffect edge value type).plainAt oid k =
        (s.writeThrough edge value size type.isPointer oid).bind (fun w => if w.plainAt k then some w.value else none) ∧
      (s.writeEffect edge value type).pointerAt oid k =
        (s.writeThrough edge value size type.isPointer oid).bind
          (fun w => if w.pointerAt k then some (if w.known then some w.value else none) else none) := by
  unfold MemState.writeEffect MemState.writeThrough
  by_cases hoid : edge.targetObjectId = oid <;> by_cases hk : edge.targetOffset = k <;>
    cases type.isPointer <;> cases s.graph.existsPtEdge value <;>
    simp [Effect.plainAt, Effect.pointerAt, Write.plainAt, Write.pointerAt, hoid, hk]

/-- What an operation writes is what its effect does to the cells, reads apart. -/
theorem effect_at (op : GraphOp) (hop : ∀ p t, op ≠ .readValue p t) (oid : ObjectId) (k : ValueId) :
    (op.effect s).plainAt oid k =
        (op.written oid s).bind (fun w => if w.plainAt k then some w.value else none) ∧
      (op.effect s).pointerAt oid k =
        (op.written oid s).bind
          (fun w => if w.pointerAt k then some (if w.known then some w.value else none) else none) := by
  cases op with
  | allocateRegion | createDerivedPointer | container => exact ⟨rfl, rfl⟩
  | readValue p t => exact absurd rfl (hop p t)
  | writeValue p v t => exact writeEffect_at s _ v t _ oid k
  | free p =>
    simp only [GraphOp.effect, MemState.freeEffect, GraphOp.written]
    split
    · exact ⟨rfl, rfl⟩
    · split <;> exact ⟨rfl, rfl⟩
  | memclear p n =>
    simp only [GraphOp.effect, MemState.clearEffect, GraphOp.written]
    cases s.vc.constantContainer[n]? with
    | none => exact ⟨rfl, rfl⟩
    | some m =>
      cases Angie.createDerivedPointer p 0 s with
      | error => exact ⟨rfl, rfl⟩
      | ok d t => exact writeEffect_at t d.2 t.vc.zero (.array (.int 8) m.toNat) m.toNat oid k

omit [DataLayout] in
/-- A read fills the plain view of its own cell when there is nothing to find. -/
theorem readEffect_at {p : ValueId} {t : Ty} {oid : ObjectId} {k : ValueId} {l : Slots ValueId ValueId}
    (hl : s.memory oid = some l) :
    (s.readEffect p t).pointerAt oid k = none ∧
    ((s.readEffect p t).plainAt oid k = none ∨
      ((s.resolve p).targetObjectId = oid ∧ (s.resolve p).targetOffset = k ∧ l.read t.isPointer k = none ∧
        (s.readEffect p t).plainAt oid k = some s.statics.nextIdToGive)) := by
  simp only [MemState.readEffect]
  split
  · exact ⟨rfl, Or.inl rfl⟩
  · rename_i l₀ hl₀
    split
    · exact ⟨rfl, Or.inl rfl⟩
    · rename_i hnone
      refine ⟨rfl, ?_⟩
      by_cases hcell : (s.resolve p).targetObjectId = oid ∧ (s.resolve p).targetOffset = k
      · obtain ⟨rfl, rfl⟩ := hcell
        rw [hl] at hl₀
        cases hl₀
        exact Or.inr ⟨rfl, rfl, hnone, by simp [Effect.plainAt]⟩
      · exact Or.inl (if_neg hcell)

/-! ## The cells of a region -/

theorem writes_step (op : GraphOp) (es : GraphHistory) :
    writes oid (step GraphOp.exec s op :: es) = (op.written oid s).toList ++ writes oid es := by
  unfold writes
  rw [List.filterMap_cons]
  cases h : op.written oid s with
  | none => simp only [step, h]; rfl
  | some w => simp only [step, h]; rfl

/-- An operation writes to regions that exist. -/
theorem written_exists (hs : GraphOk s) {op : GraphOp} (ha : op.Adm s) {w : Write} (h : op.written oid s = some w) :
    s.Exists oid := by
  have hthrough : ∀ (t : MemState) edge v n b, t.writeThrough edge v n b oid = some w →
      edge.targetObjectId = oid := by
    intro t edge v n b h
    unfold MemState.writeThrough at h
    split at h
    · assumption
    · cases h
  cases op with
  | writeValue p v t =>
    rw [← hthrough _ _ _ _ _ h]
    exact resolve_exists hs p
  | memclear p n =>
    simp only [GraphOp.written] at h
    split at h
    · cases h
    · obtain ⟨o, v, t, hd, heq⟩ := createDerivedPointer_spec hs (ha p (by simp [GraphOp.ids])) 0
      rw [heq] at h
      rw [← hthrough _ _ _ _ _ h]
      exact resolve_exists hs p
  | _ => cases h

omit [DataLayout] in
/-- The pointer view of a cell after the writes. -/
def pointerView (ws : List Write) (k : ValueId) : Option ValueId :=
  (latest (Write.pointerAt k) ws).bind fun r => if r.2.known then some r.2.value else none

omit [DataLayout] in
/-- The cells hold what the last writes put there; a plain view that was not written holds what a read made up. -/
structure CellsOk (ws : List Write) (made : ValueId → ValueId → Prop) (l : Slots ValueId ValueId) : Prop where
  pointer : ∀ k, l.pointer k = pointerView ws k
  plain : ∀ k r, latest (Write.plainAt k) ws = some r → l.plain k = some r.2.value
  madeUp : ∀ k v, latest (Write.plainAt k) ws = none → l.plain k = some v → made k v

section Cells

variable {ws : List Write} {made : ValueId → ValueId → Prop} {l : Slots ValueId ValueId}

omit [DataLayout]

theorem cellsOk_empty (made : ValueId → ValueId → Prop) : CellsOk [] made Slots.empty :=
  ⟨fun _ => rfl, fun _ _ h => (by cases h), fun _ _ _ h => (by cases h)⟩

theorem CellsOk.mono {made' : ValueId → ValueId → Prop} (h : CellsOk ws made l) (hm : ∀ k v, made k v → made' k v) :
    CellsOk ws made' l :=
  ⟨h.pointer, h.plain, fun k v hk hv => hm k v (h.madeUp k v hk hv)⟩

/-- A write goes to the front of the history. -/
theorem CellsOk.write (h : CellsOk ws made l) (w : Write) :
    CellsOk (w :: ws) made
      ⟨fun k => (if w.plainAt k then some w.value else none).or (l.plain k),
        fun k => (if w.pointerAt k then some (if w.known then some w.value else none) else none).getD
          (l.pointer k)⟩ where
  pointer := by
    intro k
    unfold pointerView
    cases hk : w.pointerAt k with
    | true =>
      rw [latest_cons_pos hk]
      simp only [hk, if_true, Option.getD_some, Option.bind_some]
    | false =>
      rw [latest_cons_neg hk, Option.bind_map]
      simp only [hk, Bool.false_eq_true, if_false, Option.getD_none]
      exact h.pointer k
  plain := by
    intro k r hr
    cases hk : w.plainAt k with
    | true =>
      rw [latest_cons_pos hk] at hr
      cases hr
      simp only [hk, if_true, Option.some_or]
    | false =>
      rw [latest_cons_neg hk] at hr
      obtain ⟨r', hr', rfl⟩ := Option.map_eq_some_iff.1 hr
      simp only [hk, Bool.false_eq_true, if_false, Option.none_or]
      exact h.plain k r' hr'
  madeUp := by
    intro k v hr hv
    cases hk : w.plainAt k with
    | true => rw [latest_cons_pos hk] at hr; cases hr
    | false =>
      rw [latest_cons_neg hk, Option.map_eq_none_iff] at hr
      simp only [hk, Bool.false_eq_true, if_false, Option.none_or] at hv
      exact h.madeUp k v hr hv

/-- A read fills plain views that are empty. -/
theorem CellsOk.read (h : CellsOk ws made l) {x : ValueId → Option ValueId}
    (hx : ∀ k v, x k = some v → l.plain k = none ∧ made k v) :
    CellsOk ws made ⟨fun k => (x k).or (l.plain k), l.pointer⟩ where
  pointer := h.pointer
  plain := by
    intro k r hr
    have hp := h.plain k r hr
    cases hk : x k with
    | none => simpa only [hk, Option.none_or] using hp
    | some v =>
      rw [(hx k v hk).1] at hp
      cases hp
  madeUp := by
    intro k v hr hv
    cases hk : x k with
    | none =>
      simp only [hk, Option.none_or] at hv
      exact h.madeUp k v hr hv
    | some u =>
      simp only [hk, Option.some_or, Option.some.injEq] at hv
      subst hv
      exact (hx k u hk).2

end Cells

/-- The cells of every region hold what the last writes of the history put there. -/
structure Views (es : GraphHistory) (s : MemState) : Prop where
  fresh : ∀ oid : ObjectId, s.statics.nextObjectIdToGive ≤ oid → writes oid es = []
  cells : ∀ oid l, s.memory oid = some l → CellsOk (writes oid es) (MadeUp oid · es ·) l

omit [DataLayout] in
theorem MadeUp.cons {k v : ValueId} (h : MadeUp oid k es v) (e : Event MemState GraphOp (Except Exn (Option ValueId))) :
    MadeUp oid k (e :: es) v := by
  obtain ⟨a, ha, h⟩ := h
  exact ⟨a, List.mem_cons_of_mem _ ha, h⟩

/-- The cells of a region that the operation neither creates nor destroys. -/
theorem Views.cells_step (hs : GraphOk s) (h : Views es s) {op : GraphOp} {l : Slots ValueId ValueId}
    (hl : s.memory oid = some l) :
    CellsOk (writes oid (step GraphOp.exec s op :: es)) (MadeUp oid · (step GraphOp.exec s op :: es) ·)
      ⟨fun k => ((op.effect s).plainAt oid k).or (l.plain k),
        fun k => ((op.effect s).pointerAt oid k).getD (l.pointer k)⟩ := by
  have hold : CellsOk (writes oid es) (MadeUp oid · (step GraphOp.exec s op :: es) ·) l :=
    (h.cells oid l hl).mono fun k v hm => hm.cons _
  rw [writes_step]
  by_cases hop : ∃ p t, op = .readValue p t
  · obtain ⟨p, t, rfl⟩ := hop
    have hpointer : ∀ k, ((GraphOp.readValue p t).effect s).pointerAt oid k = none :=
      fun k => (readEffect_at hl).1
    simp only [hpointer, Option.getD_none]
    refine hold.read fun k v hk => ?_
    rcases (readEffect_at (p := p) (t := t) (k := k) hl).2 with hnone | ⟨hoid, hoff, hread, hsome⟩
    · rw [GraphOp.effect, hnone] at hk; cases hk
    · rw [GraphOp.effect, hsome] at hk
      cases hk
      refine ⟨(Slots.read_eq_none hread).1, _, List.mem_cons_self, p, t, rfl, hoid, hoff, ?_, rfl⟩
      subst hoid
      subst hoff
      obtain ⟨u, hu⟩ := readValue_of_memory hs hl t
      rw [hread, Option.getD_none] at hu
      exact congrArg Prod.fst (GraphOp.exec_of_ok (.readValue p t) rfl hu)
  · have hat := fun k => effect_at (s := s) op (fun p t heq => hop ⟨p, t, heq⟩) oid k
    simp only [fun k => (hat k).1, fun k => (hat k).2]
    cases op.written oid s with
    | none =>
      simp only [Option.bind_none, Option.none_or, Option.getD_none]
      exact hold
    | some w => exact hold.write w

theorem Views.step (hs : GraphOk s) (h : Views es s) {op : GraphOp} (ha : op.Adm s) :
    Views (step GraphOp.exec s op :: es) (op.exec s).2 := by
  have hnext : s.statics.nextObjectIdToGive ≤ (op.exec s).2.statics.nextObjectIdToGive :=
    (exec_edits hs ha).induct (P := fun t => s.statics.nextObjectIdToGive ≤ t.statics.nextObjectIdToGive)
      (fun h' _ hle => Int.le_trans hle h'.nextObjectId) hs (Int.le_refl _)
  refine ⟨fun oid hoid => ?_, fun oid l hl => ?_⟩
  · rw [writes_step, h.fresh oid (Int.le_trans hnext hoid), List.append_nil, Option.toList_eq_nil_iff]
    by_contra hne
    obtain ⟨w, hw⟩ := Option.ne_none_iff_exists'.1 hne
    obtain ⟨o, ho⟩ := written_exists hs ha hw
    exact Int.not_le.2 (hs.key oid o ho).2 (Int.le_trans hnext hoid)
  · rw [exec_memory hs ha] at hl
    by_cases hlife : (op.effect s).isLifetime = false ∨ (op.effect s).region ≠ some oid
    · rw [Effect.apply_cells hlife] at hl
      obtain ⟨l₀, hl₀, rfl⟩ := Option.map_eq_some_iff.1 hl
      exact h.cells_step hs hl₀
    · rw [not_or, Bool.not_eq_false, not_not] at hlife
      rcases effect_lifetime hlife.1 with ⟨t, ms, rfl, he⟩ | ⟨p, o, _, _, _, _, he⟩
      · rw [he] at hl hlife
        have hoid : s.statics.nextObjectIdToGive = oid := Option.some.inj hlife.2
        subst hoid
        simp only [Effect.apply, Function.update_self, Option.some.injEq] at hl
        subst hl
        rw [writes_step, h.fresh _ (Int.le_refl _)]
        exact cellsOk_empty _
      · rw [he] at hl hlife
        have hoid : (s.resolve p).targetObjectId = oid := Option.some.inj hlife.2
        subst hoid
        simp [Effect.apply] at hl

theorem run_views (h : GraphRun es s) : Views es s := by
  refine h.invariant ?_ fun es s op hr ha hv => hv.step (run_graphOk hr) ha
  rintro s rfl
  refine ⟨fun _ _ => rfl, fun oid l hl => ?_⟩
  rw [memory_new] at hl
  cases hl

/-! ## What a read finds -/

omit [DataLayout] in
theorem visible_spec {ws later : List Write} {f : ValueId} {forPointer : Bool} {w : Write}
    (h : visible ws f forPointer = some (later, w)) : w.offset = f ∧ ∃ earlier, ws = later ++ w :: earlier := by
  have hplain : latest (Write.plainAt f) ws = some (later, w) → w.offset = f ∧ ∃ earlier, ws = later ++ w :: earlier := by
    intro h
    obtain ⟨hw, hws⟩ := latest_some h
    exact ⟨eq_of_beq (Bool.and_eq_true_iff.1 hw).1, hws⟩
  unfold visible at h
  split at h
  · split at h
    · rename_i later' w' hl
      split at h
      · cases h
        obtain ⟨hw, hws⟩ := latest_some hl
        exact ⟨eq_of_beq (Bool.and_eq_true_iff.1 hw).1, hws⟩
      · exact hplain h
    · exact hplain h
  · exact hplain h

omit [DataLayout] in
/-- A read finds the visible write, or what an earlier read made up. -/
theorem CellsOk.read_eq {ws : List Write} {made : ValueId → ValueId → Prop} {l : Slots ValueId ValueId}
    (h : CellsOk ws made l) (f : ValueId) (forPointer : Bool) :
    (∀ r, visible ws f forPointer = some r → l.read forPointer f = some r.2.value) ∧
    (visible ws f forPointer = none → ∀ v, l.read forPointer f = some v → made f v) := by
  have hplain : (∀ r, latest (Write.plainAt f) ws = some r → l.plain f = some r.2.value) ∧
      (latest (Write.plainAt f) ws = none → ∀ v, l.plain f = some v → made f v) :=
    ⟨h.plain f, fun hn v hv => h.madeUp f v hn hv⟩
  unfold visible Slots.read
  cases forPointer with
  | false => exact hplain
  | true =>
    simp only [if_true, h.pointer f, pointerView]
    cases hl : latest (Write.pointerAt f) ws with
    | none => simpa only [Option.bind_none, Option.none_or] using hplain
    | some r =>
      cases hk : r.2.known with
      | true =>
        simp only [Option.bind_some, hk, if_true, Option.some_or]
        exact ⟨fun _ hr => (by cases hr; rfl), fun hn => by cases hn⟩
      | false => simpa only [Option.bind_some, hk, Bool.false_eq_true, if_false, Option.none_or] using hplain

omit [DataLayout] in
/-- A read returns an id that was given out, or the next one. -/
theorem readValue_cases (hs : GraphOk s) {p v : ValueId} {type : Ty} {t : MemState}
    (h : Angie.readValue p type s = .ok v t) :
    (s.Given v ∧ t.toVc = s.toVc) ∨ (v = s.statics.nextIdToGive ∧ t.toVc = s.nextValue.toVc) := by
  rcases resolve_target_cases hs p with h' | h' | h' | ⟨h0, o, ho⟩
  iterate 3
    have herr : Angie.readValue p type s = _ := readValue_error (by simp [h'])
    rw [herr] at h
    cases h
  rw [readValue_region h0 ho] at h
  split at h
  · rename_i e he
    cases h
    split at he
    · exact Or.inl ⟨((hs.object _ o ho).ptEdge e (lookup_some he).1).value, rfl⟩
    · cases he
  · split at h
    · rename_i e he
      cases h
      exact Or.inl ⟨(hs.object _ o ho).hvValue e (lookup_some he).1, rfl⟩
    · cases h
      exact Or.inr ⟨rfl, rfl⟩

/-- A made-up value stays unknown to the container. -/
theorem madeUp_unknown (h : GraphRun es s) {f v : ValueId} (hm : MadeUp oid f es v) :
    s.Given v ∧ s.vc.constantContainer[v]? = none := by
  obtain ⟨e, he, p, t, hop, _, _, hout, hv⟩ := hm
  obtain ⟨⟨es', hpre⟩, ha, hstep⟩ := h.event e he
  have hs := run_graphOk hpre
  refine h.mono (P := fun s => s.Given v ∧ s.vc.constantContainer[v]? = none) ?_ e he ?_
  · intro es s op hr ha hv
    refine (exec_edits (run_graphOk hr) ha).induct (P := fun s => s.Given v ∧ s.vc.constantContainer[v]? = none)
      (fun h _ hv => ?_) (run_graphOk hr) hv
    cases h with
    | container h => exact ⟨h.given hv.1, (h.constant hv.1).trans hv.2⟩
    | _ => exact hv
  · rw [hstep, hop] at hout ⊢
    obtain ⟨a, hread, hav⟩ := GraphOp.ok_of_exec (.readValue p t) rfl hout
    cases hav
    subst hv
    have hnew : ¬ e.pre.Given e.pre.statics.nextIdToGive := fun hg => Int.lt_irrefl _ hg.2
    rcases readValue_cases hs hread with ⟨hg, _⟩ | ⟨_, hvc⟩
    · exact absurd hg hnew
    · have hc := hs.const.counter
      have hnone := constant_next hs.const (Int.le_refl e.pre.statics.nextIdToGive)
      change VcState.Given (MemState.toVc _) _ ∧ (MemState.toVc _).vc.constantContainer[_]? = none
      simp only [step, hvc]
      exact ⟨⟨hc, Int.lt_succ e.pre.statics.nextIdToGive⟩, hnone⟩

/-! ## Stale reads -/

omit [DataLayout] in
/-- The write covers the `n` bytes at the offset `f`, and none of the later ones may have touched them. -/
def Clean (s : MemState) (later : List Write) (w : Write) (f : ValueId) (n : ℕ) : Prop :=
  w.Covers s f n ∧ ∀ w' ∈ later, ¬ w'.MayTouch s w f n

omit [DataLayout] in
/-- A read through the pointer that returned `v` and left `t` returned the value of a clean write or a made-up one. -/
def NoStale (ws : List Write) (made : ValueId → Prop) (s : MemState) (f : ValueId) (n : ℕ) (v : ValueId)
    (t : MemState) : Prop :=
  (∃ later w earlier, ws = later ++ w :: earlier ∧ w.value = v ∧ Clean s later w f n) ∨
  (t.vc.constantContainer[v]? = none ∧ (¬ s.Given v ∨ made v))

omit [DataLayout] in
/-- The write that a read finds is at least as wide as the read, and none of the later writes may have touched the
bytes; or the read finds no write. -/
def FindsClean (ws : List Write) (s : MemState) (f : ValueId) (n : ℕ) (forPointer : Bool) : Prop :=
  ∀ later w, visible ws f forPointer = some (later, w) → n ≤ w.size ∧ ∀ w' ∈ later, ¬ w'.MayTouch s w f n

omit [DataLayout] in
/-- The write that a read finds wrote the value of another, clean write, or a value that a read had made up. -/
def Coincides (ws : List Write) (made : ValueId → Prop) (s : MemState) (f : ValueId) (n : ℕ) (forPointer : Bool) :
    Prop :=
  ∃ later w, visible ws f forPointer = some (later, w) ∧
    ((∃ later' w' earlier', ws = later' ++ w' :: earlier' ∧ later'.length ≠ later.length ∧ w'.value = w.value ∧
      Clean s later' w' f n) ∨ made w.value)

omit [DataLayout] in
theorem Write.Covers.size_le {w : Write} {f : ValueId} {n : ℕ} (h : w.Covers s f n) (hf : w.offset = f) :
    n ≤ w.size := by
  rcases h with ⟨_, h⟩ | ⟨g, c, hg, hc, _, h⟩
  · exact h
  · rw [hf, hc] at hg
    cases hg
    omega

/-- What a read returns: the value of the write it finds, else a value that it or an earlier read made up. -/
theorem readValue_value (h : GraphRun es s) {p v f : ValueId} {type : Ty} {t : MemState}
    (hoid : (s.resolve p).targetObjectId = oid) (hf : (s.resolve p).targetOffset = f)
    (hr : Angie.readValue p type s = .ok v t) :
    (∀ r, visible (writes oid es) f type.isPointer = some r → v = r.2.value ∧ s.Given v) ∧
    (visible (writes oid es) f type.isPointer = none → ¬ s.Given v ∨ MadeUp oid f es v) := by
  have hs := run_graphOk h
  subst hoid hf
  obtain ⟨o, ho⟩ := resolve_exists hs p
  have h0 : 0 < (s.resolve p).targetObjectId := by
    by_contra h0
    have hkey := (hs.key _ o ho).1
    have herr : Angie.readValue p type s = _ := readValue_error (by lia)
    rw [herr] at hr
    cases hr
  have hl := memory_region h0 ho
  obtain ⟨u, hu⟩ := readValue_of_memory hs hl type
  rw [hr] at hu
  cases hu
  obtain ⟨hsome, hnone⟩ := ((run_views h).cells _ _ hl).read_eq (s.resolve p).targetOffset type.isPointer
  constructor
  · intro r hvis
    have hread := hsome r hvis
    rw [hread, Option.getD_some]
    exact ⟨rfl, (slot_given hs hl (Slots.slot_of_read hread)).2⟩
  · intro hvis
    cases hread : o.slots.read type.isPointer (s.resolve p).targetOffset with
    | none => exact Or.inl fun hg => Int.lt_irrefl _ hg.2
    | some v => exact Or.inr (hnone hvis v hread)

/-- A read returns no stale value exactly when the write it finds is clean, coincidences of value ids apart. -/
theorem readValue_noStale_iff (h : GraphRun es s) {p v f : ValueId} {type : Ty} {t : MemState}
    (hoid : (s.resolve p).targetObjectId = oid) (hf : (s.resolve p).targetOffset = f)
    (hr : Angie.readValue p type s = .ok v t) :
    NoStale (writes oid es) (MadeUp oid f es) s f type.getSizeOf v t ↔
      FindsClean (writes oid es) s f type.getSizeOf type.isPointer ∨
      Coincides (writes oid es) (MadeUp oid f es) s f type.getSizeOf type.isPointer := by
  have hs := run_graphOk h
  obtain ⟨hsome, hnone⟩ := readValue_value h hoid hf hr
  -- a value that is new or made up is unknown to the container
  have hunknown : ¬ s.Given v ∨ MadeUp oid f es v → t.vc.constantContainer[v]? = none := by
    intro hv
    have hvc : s.vc.constantContainer[v]? = none := by
      rcases hv with hv | hv
      · cases hc : s.vc.constantContainer[v]? with
        | none => rfl
        | some c => exact absurd (hs.const.range v c hc) hv
      · exact (madeUp_unknown h hv).2
    rcases readValue_cases hs hr with ⟨_, ht⟩ | ⟨_, ht⟩
    · exact (congrArg (·.vc.constantContainer[v]?) ht).trans hvc
    · exact (congrArg (·.vc.constantContainer[v]?) ht).trans hvc
  cases hvis : visible (writes oid es) f type.isPointer with
  | none =>
    refine iff_of_true (Or.inr ⟨hunknown (hnone hvis), hnone hvis⟩) (Or.inl fun later w hw => ?_)
    rw [hvis] at hw
    cases hw
  | some r =>
    obtain ⟨later, w⟩ := r
    obtain ⟨rfl, hgiven⟩ := hsome _ hvis
    obtain ⟨hoff, earlier, hws⟩ := visible_spec hvis
    constructor
    · rintro (⟨later', w', earlier', hws', hval, hclean⟩ | ⟨_, hv⟩)
      · by_cases hlen : later'.length = later.length
        · obtain ⟨rfl, htail⟩ := List.append_inj (hws'.symm.trans hws) hlen
          cases htail
          refine Or.inl fun later₁ w₁ hvis₁ => ?_
          rw [hvis] at hvis₁
          cases hvis₁
          exact ⟨hclean.1.size_le hoff, hclean.2⟩
        · exact Or.inr ⟨later, w, hvis, Or.inl ⟨later', w', earlier', hws', hlen, hval, hclean⟩⟩
      · exact Or.inr ⟨later, w, hvis, Or.inr (hv.resolve_left (not_not.2 hgiven))⟩
    · rintro (hfinds | ⟨later₁, w₁, hvis₁, hco⟩)
      · obtain ⟨hsize, hlater⟩ := hfinds later w hvis
        exact Or.inl ⟨later, w, earlier, hws, rfl, Or.inl ⟨hoff, hsize⟩, hlater⟩
      · rw [hvis] at hvis₁
        cases hvis₁
        rcases hco with ⟨later', w', earlier', hws', _, hval, hclean⟩ | hmade
        · exact Or.inl ⟨later', w', earlier', hws', hval, hclean⟩
        · exact Or.inr ⟨hunknown (Or.inr hmade), Or.inr hmade⟩

end History

section Example

attribute [local instance] Ty.x86

/-- A pointer is stored in a region of one word and then overwritten by a plain value. -/
def overwritten : GraphHistory × MemState :=
  play GraphOp.exec [] MemState.new
    [.allocateRegion (.int 64) .heap, .writeValue 1 1 Ty.charPointer, .container (.createVal (.int 64)),
      .writeValue 1 3 (.int 64)]

theorem overwritten_run : GraphRun overwritten.1 overwritten.2 := Run.play (Run.start rfl) (by decide +kernel)

theorem overwritten_writes : writes 1 overwritten.1 = [⟨0, 8, 3, false, false⟩, ⟨0, 8, 1, true, true⟩] := by
  decide +kernel

/-- The pointer is read back. -/
theorem readValue_stale : ∃ t, Angie.readValue 1 Ty.charPointer overwritten.2 = .ok 1 t ∧
    ¬ NoStale (writes 1 overwritten.1) (MadeUp 1 0 overwritten.1) overwritten.2 0 Ty.charPointer.getSizeOf 1 t := by
  have hops : overwritten.1.map (·.op) = [.writeValue 1 3 (.int 64), .container (.createVal (.int 64)),
    .writeValue 1 1 Ty.charPointer, .allocateRegion (.int 64) .heap] := rfl
  refine ⟨_, rfl, ?_⟩
  rw [overwritten_writes]
  rintro (⟨later, w, earlier, hws, hval, _, hlater⟩ | ⟨_, hv⟩)
  · match later, hws with
    | [], hws =>
      cases hws
      exact absurd hval (by decide)
    | [w'], hws =>
      cases hws
      exact hlater _ List.mem_cons_self (Or.inl ⟨rfl, by decide⟩)
    | _ :: _ :: later, hws =>
      have hlen := congrArg List.length hws
      simp at hlen
  · rcases hv with hv | ⟨e, he, p, t, hop, _⟩
    · exact hv (by decide +kernel)
    · have hmem := List.mem_map_of_mem (f := (·.op)) he
      rw [hops, hop] at hmem
      simp at hmem

/-- The plain value is read as it was written. -/
theorem readValue_clean : ∃ t, Angie.readValue 1 (.int 64) overwritten.2 = .ok 3 t ∧
    NoStale (writes 1 overwritten.1) (MadeUp 1 0 overwritten.1) overwritten.2 0 (Ty.int 64).getSizeOf 3 t := by
  have hr : Angie.readValue 1 (.int 64) overwritten.2 = .ok 3 overwritten.2 := rfl
  refine ⟨_, hr, (readValue_noStale_iff overwritten_run ?_ ?_ hr).2 (Or.inl ?_)⟩
  · rfl
  · rfl
  · rw [overwritten_writes]
    intro later w hvis
    cases hvis
    exact ⟨by decide, fun w' hw' => by cases hw'⟩

end Example

end Angie
