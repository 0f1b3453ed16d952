import Angie.Semantics.Reading

/-!
# Operations of a graph on the blocks

What an operation of the graph does to the blocks that the graph mirrors. A pointer leads to its field in the region of
its block (`Mirrors.leads`), everything else that is dereferenced leads to an object that is no region
(`Mirrors.invalid`). Reading, writing, freeing, deriving and allocating then do to the blocks what they are meant to
do, and the ids that were given out before keep their readings (`Continues`).
-/

namespace Angie

open Exec KeyedList TwoView

/-- After an operation: the ids that were given out keep their readings. -/
structure Continues [DataLayout] (ρ : Reading) (s : MemState) (ρ' : Reading) (t : MemState) (blocks : List Block)
    (births : ℕ) : Prop where
  mirrors : Mirrors ρ' t blocks births
  value : ∀ v, s.Given v → ρ'.value v = ρ.value v

/-- The pointer is known to lead to the field of a region. -/
structure LeadsTo (ρ : Reading) (s : MemState) (p : ValueId) (id : ObjectId) (f : Word) : Prop where
  touch : s.touch p = s
  pos : 0 < id
  target : (s.resolve p).targetObjectId = id
  offset : ρ.value (s.resolve p).targetOffset = .constant f

section Memory

variable [DataLayout] {ρ : Reading} {s : MemState} {st : Store} {p v : ValueId}

theorem Mirrors.continues {blocks : List Block} {births : ℕ} (h : Mirrors ρ s blocks births) :
    Continues ρ s ρ s blocks births := ⟨h, fun _ _ => rfl⟩

/-- An operation, after new ids were given out. -/
theorem Continues.trans {ρ₁ ρ₂ : Reading} {t u : MemState} {blocks blocks' : List Block} {births births' : ℕ}
    (h : Continues ρ s ρ₁ t blocks births) (h' : Continues ρ₁ t ρ₂ u blocks' births')
    (hgiven : ∀ v, s.Given v → t.Given v) : Continues ρ s ρ₂ u blocks' births' :=
  ⟨h'.mirrors, fun v hv => (h'.value v (hgiven v hv)).trans (h.value v hv)⟩

/-! ## What a pointer leads to -/

section Leads

variable {b : ℕ} {f : Word} {k : Option ℕ} {blk : Block}

/-- A pointer into a block that is there. -/
theorem Mirrors.leads (h : Mirrors ρ s st.blocks st.births) (hp : ρ.value p = .pointer b f k)
    (hblk : st.blocks[b]? = some blk) (hlive : blk.freed = false) :
    LeadsTo ρ s p (ρ.region b) f ∧ ∃ o, s.graph.objects[ρ.region b]? = some o ∧ Shows ρ o blk := by
  obtain ⟨hb, -, htracks, hlies⟩ := h.pointers p b f k hp
  obtain ⟨o, ho, hshows⟩ := h.live b blk hblk hlive
  obtain ⟨hedge, hvalue⟩ := htracks.resolve_edge
  refine ⟨⟨htracks.touch, htracks.pos, ?_, (h.constants _ _).1 (hlies _ hedge hvalue)⟩, o, ho, hshows⟩
  rw [htracks.resolve, MemState.current_of_exists ⟨o, ho⟩]

/-- A pointer into a block that was freed. -/
theorem Mirrors.leads_freed (h : Mirrors ρ s st.blocks st.births) (hp : ρ.value p = .pointer b f k)
    (hblk : st.blocks[b]? = some blk) (hfreed : blk.freed = true) :
    s.touch p = s ∧ (s.resolve p).targetObjectId = -2 := by
  obtain ⟨-, -, htracks, -⟩ := h.pointers p b f k hp
  refine ⟨htracks.touch, ?_⟩
  rw [htracks.resolve, MemState.current_of_not_exists (h.freed b blk hblk hfreed)]

end Leads

variable {blocks : List Block} {births : ℕ}

theorem Mirrors.value_zero (h : Mirrors ρ s blocks births) (hs : GraphOk s) : ρ.value 0 = .constant 0 :=
  (h.constants 0 0).1 hs.bound_zero

/-- The handle to the unknown object, which constants and unset pointers get when they are looked at. -/
theorem Mirrors.touch (h : Mirrors ρ s blocks births) (hs : GraphOk s) (hp : s.Given p)
    (hfits : ρ.Fits (PtEdge.handle p (-1))) : Mirrors ρ (s.touch p) blocks births := by
  cases hl : lookup (·.value) p s.graph.handles with
  | some e => rwa [(resolve_of_lookup hl).2]
  | none =>
    rw [(resolve_of_none hl).2]
    exact h.addHandle hs (.unknown hp hl) hfits

theorem Mirrors.fits_unknown (h : Mirrors ρ s blocks births) (hs : GraphOk s)
    (hp : (∃ u, ρ.value p = .constant u) ∨ ρ.value p = .other) : ρ.Fits (PtEdge.handle p (-1)) := by
  rcases hp with ⟨u, hu⟩ | hp
  · exact Reading.fits_constant hu (Or.inr rfl) (h.value_zero hs)
  · exact Reading.fits_other hp rfl

/-- The edge that an id resolves to is one that it may have. -/
theorem Mirrors.resolve_fits (h : Mirrors ρ s blocks births) (hs : GraphOk s) (hp : s.Given p)
    (hfits : ρ.Fits (PtEdge.handle p (-1))) : ρ.Fits (s.resolve p) :=
  (h.touch hs hp hfits).edges _ (Or.inl (resolve_mem_touch s p))

theorem Mirrors.resolve_constant (h : Mirrors ρ s blocks births) (hs : GraphOk s) (hp : s.Given p) {u : Word}
    (hu : ρ.value p = .constant u) :
    ((s.resolve p).targetObjectId = 0 ∨ (s.resolve p).targetObjectId = -1) ∧
      ∃ c, ρ.value (s.resolve p).targetOffset = .constant c := by
  have hfits := h.resolve_fits hs hp (h.fits_unknown hs (Or.inl ⟨u, hu⟩))
  unfold Reading.Fits at hfits
  rw [resolve_value, hu] at hfits
  exact hfits

theorem Mirrors.resolve_other (h : Mirrors ρ s blocks births) (hs : GraphOk s) (hp : s.Given p)
    (hv : ρ.value p = .other) : (s.resolve p).targetObjectId = -1 := by
  have hfits := h.resolve_fits hs hp (h.fits_unknown hs (Or.inr hv))
  unfold Reading.Fits at hfits
  rw [resolve_value, hv] at hfits
  exact hfits

/-- The null pointer leads to the null object. -/
theorem Mirrors.resolve_null (h : Mirrors ρ s blocks births) (hs : GraphOk s) (hp : ρ.value p = .constant 0) :
    p = 0 ∧ s.resolve p = PtEdge.handle 0 0 ∧ s.touch p = s := by
  have hzero : p = 0 := hs.const.interned p 0 0 ((h.constants p 0).2 hp) hs.bound_zero
  subst hzero
  exact ⟨rfl, resolve_of_lookup h.null⟩

/-- What must not be accessed leads to no region. -/
theorem Mirrors.invalid (h : Mirrors ρ s st.blocks st.births) (hs : GraphOk s) (hp : s.Given p) {d : Datum}
    (hd : (ρ.value p).Stands d) (hinvalid : st.Invalid d) :
    ((s.resolve p).targetObjectId = 0 ∨ (s.resolve p).targetObjectId = -1 ∨ (s.resolve p).targetObjectId = -2) ∧
      Mirrors ρ (s.touch p) st.blocks st.births := by
  have hconstant : ∀ u, ρ.value p = .constant u → ((s.resolve p).targetObjectId = 0 ∨
      (s.resolve p).targetObjectId = -1 ∨ (s.resolve p).targetObjectId = -2) ∧
      Mirrors ρ (s.touch p) st.blocks st.births := fun u hu =>
    ⟨(h.resolve_constant hs hp hu).1.imp_right Or.inl, h.touch hs hp (h.fits_unknown hs (Or.inl ⟨u, hu⟩))⟩
  generalize hv : ρ.value p = δ at hd
  cases hd with
  | int => exact hinvalid.elim
  | null => exact hconstant 0 hv
  | wild => exact hconstant _ hv
  | junk => exact ⟨Or.inr (Or.inl (h.resolve_other hs hp hv)), h.touch hs hp (h.fits_unknown hs (Or.inr hv))⟩
  | ptr =>
    obtain ⟨blk, hblk, hfreed⟩ := hinvalid
    obtain ⟨htouch, htarget⟩ := h.leads_freed hv hblk hfreed
    exact ⟨Or.inr (Or.inr htarget), by rwa [htouch]⟩

/-! ## Reading and writing -/

omit [DataLayout] in
theorem Kind.isPointer_of_type {type : Ty} {k : Kind} (h : type.kind = some k) : k.isPointer = type.isPointer := by
  unfold Ty.kind at h
  split at h
  · split at h
    · cases h
      rfl
    · cases h
  · cases h
    rfl
  · cases h

theorem Block.write_contents (blk : Block) (f : Word) (hf : blk.shape.field f = some (blk.contents f).kind) :
    blk.write f (blk.contents f) hf = blk := by
  unfold Block.write
  simp only [Function.update_eq_self]

/-- One field of a region is written. -/
theorem Shows.write {o o' : Object} {blk : Block} (h : Shows ρ o blk) {f : Word} {d : Datum} {key : ValueId}
    (hd : blk.shape.field f = some d.kind) (hspace : o'.memSpace = o.memSpace)
    (hkey : ∀ key', ρ.value key' = .constant f ↔ key' = key) (hread : o'.slots.read d.kind.isPointer key = some v)
    (hother : ∀ forPointer key', key' ≠ key → o'.slots.read forPointer key' = o.slots.read forPointer key')
    (hv : (ρ.value v).Stands d) : Shows ρ o' (blk.write f d hd) where
  space := hspace.trans h.space
  stands := by
    intro g k hg key' w hkey' hw
    by_cases hgf : g = f
    · subst hgf
      obtain rfl : key' = key := (hkey key').1 hkey'
      obtain rfl : k = d.kind := Option.some.inj (hg.symm.trans hd)
      obtain rfl : w = v := Option.some.inj (hw.symm.trans hread)
      have hcontents : (blk.write g d hd).contents g = d := Function.update_self ..
      rwa [hcontents]
    · have hne : key' ≠ key := by
        rintro rfl
        have := ((hkey key').2 rfl).symm.trans hkey'
        cases this
        exact hgf rfl
      have hcontents : (blk.write f d hd).contents g = blk.contents g := Function.update_of_ne hgf _ _
      rw [hother _ _ hne] at hw
      rw [hcontents]
      exact h.stands g k hg key' w hkey' hw
  unset := by
    intro g hg
    by_cases hgf : g = f
    · subst hgf
      obtain hkind : Kind.pointer = d.kind := Option.some.inj (hg.symm.trans hd)
      rw [← hkind] at hread
      exact Or.inr ⟨key, v, (hkey key).2 rfl, hread⟩
    · have hcontents : (blk.write f d hd).contents g = blk.contents g := Function.update_of_ne hgf _ _
      rw [hcontents]
      refine (h.unset g hg).imp_right fun ⟨key', w, hkey', hw⟩ => ⟨key', w, hkey', ?_⟩
      have hne : key' ≠ key := by
        rintro rfl
        have := ((hkey key').2 rfl).symm.trans hkey'
        cases this
        exact hgf rfl
      rw [hother _ _ hne]
      exact hw

omit [DataLayout] in
/-- The reads of a region after a write. -/
theorem read_written {o : Object} {known : Option PtEdge} {offset value : ValueId} (type : Ty) (hoff : offset ≠ -1)
    (ho : KeysNodup (·.sourceOffset) (-1) o.ptEdges) (hknown : ∀ e, known = some e → e.value = value) :
    (o.written known offset value type).slots.read type.isPointer offset = some value ∧
      ∀ forPointer key, key ≠ offset →
        (o.written known offset value type).slots.read forPointer key = o.slots.read forPointer key := by
  rw [slots_written o known type hoff ho hknown]
  cases hp : type.isPointer with
  | false =>
    rw [if_neg Bool.false_ne_true]
    exact ⟨Slots.read_setPlain_self (fun h => by cases h) value, fun _ _ hk => Slots.read_setPlain_of_ne hk _ _⟩
  | true =>
    rw [if_pos rfl]
    split
    · refine ⟨Slots.read_pointer (Function.update_self ..), fun forPointer key hk => ?_⟩
      simp only [Slots.read, Slots.setPointer, Function.update_of_ne hk]
    · refine ⟨Slots.read_setPlain_self (fun _ => Function.update_self ..) value, fun forPointer key hk => ?_⟩
      simp only [Slots.read, Slots.setPlain, Slots.hide, Function.update_of_ne hk]

omit [DataLayout] in
theorem edit_written {id : ObjectId} {o : Object} (h0 : 0 < id) (ho : s.graph.objects[id]? = some o)
    {offset value : ValueId} (hoff : s.Given offset) (hv : s.Given value) (type : Ty) :
    Edit s (s.setObject id (o.written (lookup (·.value) value s.graph.handles) offset value type)) := by
  unfold Object.written
  split
  · cases hl : lookup (·.value) value s.graph.handles with
    | some e => exact .pointer h0 ho hoff (lookup_some hl).1
    | none => exact .hide h0 ho hoff hv
  · exact .plain h0 ho hoff hv

/-- The edges of a region after a write copy the values and targets of others. -/
theorem Mirrors.fits_written (h : Mirrors ρ s blocks births) {id : ObjectId} {o : Object}
    (ho : s.graph.objects[id]? = some o) (offset value : ValueId) (type : Ty) :
    ∀ e ∈ (o.written (lookup (·.value) value s.graph.handles) offset value type).ptEdges, ρ.Fits e := by
  have hold : ∀ e ∈ o.ptEdges, ρ.Fits e := fun e he => h.edges e (Or.inr ⟨id, o, ho, he⟩)
  unfold Object.written
  split
  · cases hl : lookup (·.value) value s.graph.handles with
    | some a =>
      have ha : ρ.Fits a := h.edges a (Or.inl (lookup_some hl).1)
      intro e he
      rcases mem_upsert he with he | ⟨b, -, -, rfl⟩ | rfl
      · exact hold e he
      · exact ha.congr rfl rfl rfl
      · exact ha.congr rfl rfl rfl
    | none =>
      intro e he
      rcases mem_modifyFirst he with he | ⟨b, hb, -, rfl⟩
      · exact hold e he
      · exact (hold b hb).congr rfl rfl rfl
  · exact hold

omit [DataLayout] in
theorem written_memSpace (o : Object) (known : Option PtEdge) (offset value : ValueId) (type : Ty) :
    (o.written known offset value type).memSpace = o.memSpace := by
  unfold Object.written
  split
  · cases known <;> rfl
  · rfl

/-- A constant has one id. -/
theorem Mirrors.constant_iff (h : Mirrors ρ s blocks births) (hs : GraphOk s) {key : ValueId} {f : Word}
    (hkey : ρ.value key = .constant f) (key' : ValueId) : ρ.value key' = .constant f ↔ key' = key := by
  refine ⟨fun hkey' => hs.const.interned _ _ f ((h.constants _ _).2 hkey') ((h.constants _ _).2 hkey), ?_⟩
  rintro rfl
  exact hkey

section Fields

variable {b : ℕ} {f : Word} {k : Option ℕ} {blk : Block}

/-- Writing a field of a block. -/
theorem Mirrors.writeValue (h : Mirrors ρ s st.blocks st.births) (hs : GraphOk s) (hp : ρ.value p = .pointer b f k)
    (hblk : st.blocks[b]? = some blk) (hlive : blk.freed = false) {d : Datum} (hd : blk.shape.field f = some d.kind)
    (hgiven : s.Given v) (hv : (ρ.value v).Stands d) {type : Ty} (htype : type.kind = some d.kind) :
    ∃ t, Angie.writeValue p v type s = .ok () t ∧ Continues ρ s ρ t (st.blocks.set b (blk.write f d hd)) st.births := by
  obtain ⟨hleads, o, ho, hshows⟩ := h.leads hp hblk hlive
  have hoff := resolve_targetOffset hs p
  have h0 := hleads.pos
  rw [← hleads.target] at h0 ho
  have hknown : ∀ e, lookup (·.value) v s.graph.handles = some e → e.value = v := fun e he => (lookup_some he).2
  have hne : (s.resolve p).targetOffset ≠ -1 := by
    have := hoff.1
    lia
  obtain ⟨hread, hother⟩ := read_written type hne (hs.object _ o ho).ptNodup hknown
  rw [← Kind.isPointer_of_type htype] at hread
  have hkey := h.constant_iff hs hleads.offset
  refine ⟨_, writeValue_region h0 ho, ?_, fun _ _ => rfl⟩
  have hedit := edit_written h0 ho hoff hgiven type
  have hfits := h.fits_written ho (s.resolve p).targetOffset v type
  rw [hleads.target] at hedit ⊢
  exact h.setObject hs hedit hblk hlive hfits
    (hshows.write hd (written_memSpace ..) hkey hread hother hv)

/-- What a new unknown is read as that fills a field. -/
def Datum.fill : Datum → Meaning
  | .int _ x => .number (x.setWidth 64)
  | _ => .other

omit [DataLayout] in
theorem Datum.fill_isUnknown (d : Datum) : d.fill.IsUnknown := by cases d <;> trivial

/-- A field that a region lacks holds what a new unknown may be. -/
theorem Shows.fill {o : Object} (h : Shows ρ o blk) {kind : Kind} (hfield : blk.shape.field f = some kind)
    {key : ValueId} (hkey : ∀ key', ρ.value key' = .constant f ↔ key' = key)
    (hnone : o.slots.read kind.isPointer key = none) : (blk.contents f).fill.Stands (blk.contents f) := by
  have htyped := blk.typed f kind hfield
  cases hc : blk.contents f with
  | int w x => exact Meaning.stands_number x
  | junk => exact .junk
  | null | wild | ptr =>
    rw [hc] at htyped
    subst htyped
    rcases h.unset f hfield with hjunk | ⟨key', w, hkey', hread⟩
    · rw [hc] at hjunk
      cases hjunk
    · rw [(hkey key').1 hkey'] at hread
      cases hread.symm.trans hnone

omit [DataLayout] in
/-- What a region has is read; for a stored pointer there is one more handle then. -/
theorem readValue_found {type : Ty} {o : Object} (h0 : 0 < (s.resolve p).targetObjectId)
    (ho : s.graph.objects[(s.resolve p).targetObjectId]? = some o) (hoff : (s.resolve p).targetOffset ≠ -1)
    (hread : o.slots.read type.isPointer (s.resolve p).targetOffset = some v) :
    ∃ t, Angie.readValue p type s = .ok v t ∧ (t = s ∨ ∃ e ∈ o.ptEdges, t = s.addHandle (e.withSource 0)) := by
  rw [readValue_region h0 ho]
  simp only [Slots.read, Object.slots, if_neg hoff] at hread
  cases htype : type.isPointer with
  | true =>
    rw [htype, if_pos rfl] at hread
    rw [if_pos rfl]
    cases hpt : o.findPtEdgeByOffset (s.resolve p).targetOffset with
    | some e =>
      rw [hpt, Option.map_some, Option.some_or] at hread
      cases hread
      exact ⟨_, rfl, Or.inr ⟨e, (lookup_some hpt).1, rfl⟩⟩
    | none =>
      rw [hpt, Option.map_none, Option.none_or] at hread
      obtain ⟨e, he, rfl⟩ := Option.map_eq_some_iff.1 hread
      rw [he]
      exact ⟨s, rfl, Or.inl rfl⟩
  | false =>
    rw [htype, if_neg Bool.false_ne_true] at hread
    obtain ⟨e, he, rfl⟩ := Option.map_eq_some_iff.1 hread
    rw [if_neg Bool.false_ne_true, he]
    exact ⟨s, rfl, Or.inl rfl⟩

omit [DataLayout] in
/-- What a region lacks is made up. -/
theorem readValue_fills {type : Ty} {o : Object} (h0 : 0 < (s.resolve p).targetObjectId)
    (ho : s.graph.objects[(s.resolve p).targetObjectId]? = some o) (hoff : (s.resolve p).targetOffset ≠ -1)
    (hread : o.slots.read type.isPointer (s.resolve p).targetOffset = none) :
    Angie.readValue p type s = .ok s.statics.nextIdToGive (s.nextValue.setObject (s.resolve p).targetObjectId
      (o.createOrModifyHvEdge (s.resolve p).targetOffset s.statics.nextIdToGive type)) := by
  obtain ⟨hplain, hpointer⟩ := Slots.read_eq_none hread
  simp only [Object.slots, if_neg hoff, Option.map_eq_none_iff] at hplain hpointer
  have hpt : (if type.isPointer then o.findPtEdgeByOffset (s.resolve p).targetOffset else none) = none := by
    split
    · rename_i htype
      exact hpointer htype
    · rfl
  rw [readValue_region h0 ho, hpt, hplain]

/-- A field that a region lacks is filled with what the block holds. -/
theorem Mirrors.fill (h : Mirrors ρ s st.blocks st.births) (hs : GraphOk s) (hblk : st.blocks[b]? = some blk)
    (hlive : blk.freed = false) {o : Object} (ho : s.graph.objects[ρ.region b]? = some o) {key : ValueId}
    (hkey : ρ.value key = .constant f) {kind : Kind} (hfield : blk.shape.field f = some kind) {type : Ty}
    (htype : type.kind = some kind) (hgiven : s.Given v) (hv : (ρ.value v).Stands (blk.contents f))
    (hread : o.slots.read type.isPointer key = none) :
    Mirrors ρ (s.setObject (ρ.region b) (o.createOrModifyHvEdge key v type)) st.blocks st.births := by
  obtain ⟨hb, rfl⟩ := List.getElem?_eq_some_iff.1 hblk
  obtain ⟨o', ho', hshows⟩ := h.live b _ hblk hlive
  obtain rfl : o' = o := Option.some.inj (ho'.symm.trans ho)
  have hedit : Edit s (s.setObject (ρ.region b) (o'.createOrModifyHvEdge key v type)) :=
    .plain (h.regions b hb).1 ho (hs.const.range _ _ ((h.constants _ _).2 hkey)) hgiven
  have hkind := st.blocks[b].typed f kind hfield
  have hslots := slots_plain o' key v type
  have hread' : (o'.createOrModifyHvEdge key v type).slots.read (st.blocks[b].contents f).kind.isPointer key =
      some v := by
    rw [hslots, hkind, Kind.isPointer_of_type htype]
    exact Slots.read_setPlain_self (Slots.read_eq_none hread).2 v
  have hother : ∀ forPointer key', key' ≠ key → (o'.createOrModifyHvEdge key v type).slots.read forPointer key' =
      o'.slots.read forPointer key' := fun _ _ hk => by rw [hslots, Slots.read_setPlain_of_ne hk]
  have hspace : (o'.createOrModifyHvEdge key v type).memSpace = o'.memSpace := rfl
  have hshows' := hshows.write (by rw [hfield, hkind]) hspace (h.constant_iff hs hkey) hread' hother hv
  rw [Block.write_contents] at hshows'
  have hset := h.setObject hs hedit hblk hlive (fun e he => h.edges e (Or.inr ⟨_, o', ho, he⟩)) hshows'
  rwa [List.set_getElem_self hb] at hset

/-- Reading a field of a block. A field that the region lacks is filled. -/
theorem Mirrors.readValue (h : Mirrors ρ s st.blocks st.births) (hs : GraphOk s) (hp : ρ.value p = .pointer b f k)
    (hblk : st.blocks[b]? = some blk) (hlive : blk.freed = false) {kind : Kind}
    (hfield : blk.shape.field f = some kind) {type : Ty} (htype : type.kind = some kind) :
    ∃ v t ρ', Angie.readValue p type s = .ok v t ∧ Continues ρ s ρ' t st.blocks st.births ∧
      (ρ'.value v).Stands (blk.contents f) := by
  obtain ⟨hleads, o, ho, hshows⟩ := h.leads hp hblk hlive
  have hoff := resolve_targetOffset hs p
  have hne : (s.resolve p).targetOffset ≠ -1 := by
    have := hoff.1
    lia
  have h0 : 0 < (s.resolve p).targetObjectId := by
    rw [hleads.target]
    exact hleads.pos
  have ho' : s.graph.objects[(s.resolve p).targetObjectId]? = some o := by
    rw [hleads.target]
    exact ho
  have hpointer := Kind.isPointer_of_type htype
  cases hread : o.slots.read type.isPointer (s.resolve p).targetOffset with
  | some v =>
    obtain ⟨t, ht, hor⟩ := readValue_found h0 ho' hne hread
    have hstands := hshows.stands f kind hfield _ v hleads.offset (by rwa [hpointer])
    refine ⟨v, t, ρ, ht, ?_, hstands⟩
    rcases hor with rfl | ⟨e, he, rfl⟩
    · exact h.continues
    · have hfits : ρ.Fits e := h.edges e (Or.inr ⟨_, o, ho, he⟩)
      exact ⟨h.addHandle hs (.load ho he) (hfits.congr rfl rfl rfl), fun _ _ => rfl⟩
  | none =>
    have hun := (blk.contents f).fill_isUnknown
    have hkey := h.constant_iff hs hleads.offset
    have hfill := hshows.fill hfield hkey (by rwa [hpointer])
    have hg : Grows s.toVc s.nextValue.toVc := grows_next s.toVc
    have hmirrors : Mirrors _ s.nextValue st.blocks st.births := h.grow hs hg hun
    have hs' : GraphOk s.nextValue := hs.withVc hg.toExtends
    obtain ⟨hnot, hnew⟩ : ¬ s.Given s.statics.nextIdToGive ∧ s.nextValue.Given s.statics.nextIdToGive :=
      ⟨fun hg => Int.lt_irrefl _ hg.2, hs.const.counter, Int.lt_succ _⟩
    have hvalue : (ρ.extend s.toVc s.nextValue.toVc (blk.contents f).fill).value s.statics.nextIdToGive =
        (blk.contents f).fill := Reading.extend_unknown hnot (constant_next hs.const (Int.le_refl _))
    have hold : ∀ w, s.Given w → (ρ.extend s.toVc s.nextValue.toVc (blk.contents f).fill).value w = ρ.value w :=
      fun w hw => Reading.extend_given hw
    have hrun := readValue_fills h0 ho' hne hread
    rw [hleads.target] at hrun
    rw [← hvalue] at hfill
    have hkey' := (hold _ hoff).trans hleads.offset
    exact ⟨_, _, _, hrun, ⟨hmirrors.fill hs' hblk hlive ho hkey' hfield htype hnew hfill hread, hold⟩, hfill⟩

end Fields

/-! ## Freeing -/

section Frees

variable {b : ℕ} {f : Word} {k : Option ℕ} {blk : Block}

/-- What `Free` makes of the region of a block that is there. -/
theorem Mirrors.free_block (h : Mirrors ρ s st.blocks st.births) (hp : ρ.value p = .pointer b f k)
    (hblk : st.blocks[b]? = some blk) (hlive : blk.freed = false) : Angie.free p s =
      if blk.space = .heap then .ok () (s.freed (ρ.region b)) else .error (.nonHeapFree "ADD THE REAL SPACE HERE") s := by
  obtain ⟨hleads, o, ho, hshows⟩ := h.leads hp hblk hlive
  have h0 := hleads.pos
  rw [← hleads.target] at h0 ho
  have hrun := free_region h0 ho
  rwa [hshows.space, hleads.target] at hrun

theorem Mirrors.free_heap (h : Mirrors ρ s st.blocks st.births) (hs : GraphOk s) (hp : ρ.value p = .pointer b f k)
    (hblk : st.blocks[b]? = some blk) (hlive : blk.freed = false) (hspace : blk.space = .heap) :
    ∃ t, Angie.free p s = .ok () t ∧ Continues ρ s ρ t (st.blocks.set b blk.free) st.births :=
  ⟨_, (h.free_block hp hblk hlive).trans (if_pos hspace), h.free hs hblk hlive, fun _ _ => rfl⟩

theorem Mirrors.free_nonHeap (h : Mirrors ρ s st.blocks st.births) (hp : ρ.value p = .pointer b f k)
    (hblk : st.blocks[b]? = some blk) (hlive : blk.freed = false) (hspace : blk.space ≠ .heap) :
    Angie.free p s = .error (.nonHeapFree "ADD THE REAL SPACE HERE") s :=
  (h.free_block hp hblk hlive).trans (if_neg hspace)

end Frees

/-! ## New pointers -/

theorem Mirrors.count (h : Mirrors ρ s blocks births) {births' : ℕ} (hle : births ≤ births') :
    Mirrors ρ s blocks births' where
  constants := h.constants
  decided := h.decided
  edges := h.edges
  null := h.null
  pointers := fun v b o k hv =>
    (h.pointers v b o k hv).imp_right fun hrest => hrest.imp_left fun hk n hn => Nat.lt_of_lt_of_le (hk n hn) hle
  unique := h.unique
  regions := h.regions
  apart := h.apart
  freed := h.freed
  live := h.live

omit [DataLayout] in
/-- A region holds no id that is yet to be given out. -/
theorem read_ne (hs : GraphOk s) {id : ObjectId} {o : Object} (ho : s.graph.objects[id]? = some o) (hv : ¬ s.Given v)
    {forPointer : Bool} {key w : ValueId} (hread : o.slots.read forPointer key = some w) : w ≠ v := by
  rintro rfl
  refine hv ?_
  rcases Slots.slot_of_read hread with hplain | hpointer
  · obtain ⟨e, he, rfl⟩ := Option.map_eq_some_iff.1 hplain
    exact (hs.object id o ho).hvValue e (lookup_some he).1
  · simp only [Object.slots] at hpointer
    split at hpointer
    · cases hpointer
    · obtain ⟨e, he, rfl⟩ := Option.map_eq_some_iff.1 hpointer
      exact ((hs.object id o ho).ptEdge e (lookup_some he).1).value

section Derive

variable {offset : ValueId} {a : Word}

/-- A pointer derived from one into a block leads into the same block. -/
theorem Mirrors.derive_pointer (h : Mirrors ρ s blocks births) (hs : GraphOk s) {b : ℕ} {f : Word} {k : Option ℕ}
    (hp : ρ.value p = .pointer b f k) (ha : s.vc.constantContainer[offset]? = some a) (k' : Option ℕ) {births' : ℕ}
    (hle : births ≤ births') (hk : ∀ n, k' = some n → n = births ∧ births < births') :
    ∃ r t ρ', createDerivedPointer p offset s = .ok r t ∧ Continues ρ s ρ' t blocks births' ∧
      ρ'.value r.1 = .pointer b (f + a) k' := by
  obtain ⟨hb, -, htracks, hlies⟩ := h.pointers p b f k hp
  obtain ⟨o, v, t, hd, hrun⟩ := createDerivedPointer_spec hs htracks.given offset
  have hexec := (GraphOp.createDerivedPointer p offset).exec_of_ok rfl hrun
  have htracks' := tracks_derive hs htracks (congrArg Prod.fst hexec)
  have hlies' := liesAt_derive hs htracks hlies ha (congrArg Prod.fst hexec)
  have hmem := resolve_mem_touch s p
  rw [hexec] at htracks' hlies'
  rw [htracks.touch] at hrun htracks' hlies' hmem
  obtain ⟨hle', hunknown⟩ := hd.value_unknown htracks.abstracted
  have hnot : ¬ s.Given v := fun hg => Int.lt_irrefl _ (Int.lt_of_lt_of_le hg.2 hle')
  have hvalue : (ρ.extend s.toVc t .other).value v = .other := Reading.extend_unknown hnot hunknown
  have hmirrors := h.grow hs hd.grows (δ := .other) trivial
  have hedit : Edit (s.withVc t) ((s.withVc t).addHandle ((s.resolve p).derive v o)) :=
    .derive hmem hd.valueFresh.given hd.offsetFresh.given (Or.inr fun e he => hs.unused_next hle' e he)
  have hnew := hmirrors.addPointer (hs.withVc hd.grows.toExtends) hedit hvalue
    (fun id o' ho' _ _ _ hread => read_ne hs ho' hnot hread) hb htracks' hlies' hle hk
  refine ⟨_, _, _, hrun, ⟨hnew, fun w hw => ?_⟩, Reading.name_self _ _⟩
  have hne : w ≠ v := fun heq => hnot (heq ▸ hw)
  exact (Reading.name_of_ne hne _).trans (Reading.extend_given hw)

/-- A pointer derived from a constant is a constant. -/
theorem Mirrors.derive_constant (h : Mirrors ρ s blocks births) (hs : GraphOk s) (hgiven : s.Given p) {u : Word}
    (hp : ρ.value p = .constant u) (ha : s.vc.constantContainer[offset]? = some a) :
    ∃ r t ρ' u', createDerivedPointer p offset s = .ok r t ∧ Continues ρ s ρ' t blocks births ∧
      ρ'.value r.1 = .constant u' ∧ (u = 0 → a = 0 → u' = 0) := by
  obtain ⟨htarget, c, hc⟩ := h.resolve_constant hs hgiven hp
  have hpu := (h.constants _ _).2 hp
  have hoff := (h.constants _ _).2 hc
  obtain ⟨o, v, t, hd, hrun, ⟨x, y, z, ⟨hx, hy, hz⟩, ho, hv⟩ | ⟨hnone, -⟩⟩ := derived_value hs hgiven offset
  · obtain rfl : x = u := Option.some.inj (hx.symm.trans hpu)
    obtain rfl : z = a := Option.some.inj (hz.symm.trans ha)
    have htouch := h.touch hs hgiven (h.fits_unknown hs (Or.inl ⟨_, hp⟩))
    have hs' := hs.touch hgiven
    have hg : Grows (s.touch p).toVc t := by
      rw [toVc_touch]
      exact hd.grows
    have hmirrors := htouch.grow hs' hg (δ := .other) trivial
    have hvalue := (hmirrors.constants v _).1 hv
    have hedit : Edit ((s.touch p).withVc t) (((s.touch p).withVc t).addHandle ((s.resolve p).derive v o)) :=
      .derive (resolve_mem_touch s p) hd.valueFresh.given hd.offsetFresh.given
        (Or.inl (isConstant_iff.2 ⟨_, hv⟩))
    have hnew := hmirrors.addHandle (hs'.withVc hg.toExtends) hedit
      (Reading.fits_constant hvalue htarget ((hmirrors.constants o _).1 ho))
    refine ⟨_, _, _, _, hrun, ⟨hnew, fun w hw => ?_⟩, hvalue, ?_⟩
    · exact Reading.extend_given (by rwa [toVc_touch])
    · rintro rfl rfl
      obtain ⟨rfl, hresolve, -⟩ := h.resolve_null hs hp
      rw [hresolve] at hy
      have hy0 : y = 0 := Option.some.inj (hy.symm.trans hs.bound_zero)
      rw [hy0]
      rfl
  · exact absurd ⟨hpu, hoff, ha⟩ (hnone _ _ _)

/-- A pointer derived from an unset one is unset. -/
theorem Mirrors.derive_other (h : Mirrors ρ s blocks births) (hs : GraphOk s) (hgiven : s.Given p)
    (hp : ρ.value p = .other) (offset : ValueId) :
    ∃ r t ρ', createDerivedPointer p offset s = .ok r t ∧ Continues ρ s ρ' t blocks births ∧ ρ'.value r.1 = .other := by
  obtain ⟨o, v, t, hd, hrun⟩ := createDerivedPointer_spec hs hgiven offset
  have hpu : s.vc.constantContainer[p]? = none := by
    cases hc : s.vc.constantContainer[p]? with
    | none => rfl
    | some u => cases hp.symm.trans ((h.constants _ _).1 hc)
  obtain ⟨hle, hunknown⟩ := hd.value_unknown hpu
  have htouch := h.touch hs hgiven (h.fits_unknown hs (Or.inr hp))
  have hs' := hs.touch hgiven
  have hg : Grows (s.touch p).toVc t := by
    rw [toVc_touch]
    exact hd.grows
  have hnot : ¬ (s.touch p).toVc.Given v := fun hv => by
    rw [toVc_touch] at hv
    exact Int.lt_irrefl _ (Int.lt_of_lt_of_le hv.2 hle)
  have hmirrors := htouch.grow hs' hg (δ := .other) trivial
  have hvalue : (ρ.extend (s.touch p).toVc t .other).value v = .other := Reading.extend_unknown hnot hunknown
  have hedit : Edit ((s.touch p).withVc t) (((s.touch p).withVc t).addHandle ((s.resolve p).derive v o)) :=
    .derive (resolve_mem_touch s p) hd.valueFresh.given hd.offsetFresh.given
      (Or.inr fun e he => hs'.unused hnot e he)
  have hnew := hmirrors.addHandle (hs'.withVc hg.toExtends) hedit
    (Reading.fits_other hvalue (h.resolve_other hs hgiven hp))
  exact ⟨_, _, _, hrun, ⟨hnew, fun w hw => Reading.extend_given (by rwa [toVc_touch])⟩, hvalue⟩

end Derive

/-- The pointer to a new region is one to the new block. -/
theorem Mirrors.allocateRegion (h : Mirrors ρ s blocks births) (hs : GraphOk s) (type : Ty) {ms : MemorySpace}
    {blk : Block} {n : ℕ} (hnew : blk.IsNew n ms) :
    ∃ v t ρ', Angie.allocateRegion type ms s = .ok v t ∧ Continues ρ s ρ' t (blocks ++ [blk]) (births + 1) ∧
      ρ'.value v = .pointer blocks.length 0 (some births) := by
  obtain ⟨size, t, hg, hobject, hlt, hunknown, hsize, hrun⟩ := allocateRegion_spec hs type ms
  have hexec := (GraphOp.allocateRegion type ms).exec_of_ok rfl hrun
  have htracks := tracks_allocate hs (congrArg Prod.fst hexec)
  have hlies := liesAt_allocate hs (congrArg Prod.fst hexec)
  rw [hexec, ← hobject] at htracks
  rw [hexec] at hlies
  have hnot : ¬ s.Given s.statics.nextIdToGive := fun hg => Int.lt_irrefl _ hg.2
  have hvalue : (ρ.extend s.toVc t .other).value s.statics.nextIdToGive = .other :=
    Reading.extend_unknown hnot hunknown
  have hmirrors := h.grow hs hg (δ := .other) trivial
  have hedit : Edit (s.withVc t) ((s.withVc t).newRegion s.statics.nextIdToGive size ms) :=
    .allocate ⟨hs.const.counter, hlt⟩ (fun e he => hs.unused_next (Int.le_refl _) e he) (isConstant_iff.2 ⟨_, hsize⟩)
  have hregion := hmirrors.newRegion (hs.withVc hg.toExtends) hedit hvalue
    (fun id o ho _ _ _ hread => read_ne hs ho hnot hread) htracks hlies hnew
  refine ⟨_, _, _, hrun, ⟨hregion, fun w hw => ?_⟩, Reading.name_self _ _⟩
  have hne : w ≠ s.statics.nextIdToGive := fun heq => hnot (heq ▸ hw)
  exact (Reading.name_of_ne hne _).trans (Reading.extend_given hw)

end Memory

end Angie
