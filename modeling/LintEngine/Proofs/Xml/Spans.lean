import LintEngine.Proofs.Tree.Invocations
import LintEngine.Proofs.Xml.Attributes

/-!
The spans of attribute nodes.

A document is read piece by piece, and every tag among the pieces brings its
attributes. So each attribute of the document has its place in the source, and
each gets one node, in the same order. The offsets of a tag are counted right, if
no byte order mark stands before them. Whether the node then spans the attribute's
own text is a matter of the search in the tag alone.
-/

namespace LintEngine

/-! ### Attribute nodes -/

namespace Xml

structure Shown where
  space : Option String
  name : Option String
  value : Option String
  start : Nat
  stop : Nat

end Xml

def Payload.shown? (p : Payload) : Option Xml.Shown :=
  if p.kind = .xmlAttribute then some ⟨p.space, p.name, p.value, p.start, p.stop⟩ else none

def Tree.shown (t : Tree) : List Xml.Shown := t.nodes.toList.filterMap (·.shown?)

namespace Builder

variable {b : Builder}

def shown (b : Builder) : List Xml.Shown := b.nodes.toList.filterMap (·.shown?)

@[simp] theorem shown_leaf (b : Builder) (p : Payload) :
    (b.leaf p).shown = b.shown ++ p.shown?.toList :=
  filterMap_leaf Payload.shown? b p

@[simp] theorem shown_enter (b : Builder) (p : Payload) :
    (b.enter p).shown = b.shown ++ p.shown?.toList :=
  shown_leaf b p

@[simp] theorem shown_leave (b : Builder) : b.leave.shown = b.shown := rfl

theorem shown_build (b : Builder) : b.build.shown = b.shown :=
  filterMap_build (fun _ _ _ => rfl) b

def OpensElements (b : Builder) : Prop :=
  ∀ id ∈ b.opened, ∃ n, b.nodes[id]? = some n ∧ n.kind = .xmlElement

namespace OpensElements

theorem leaf (h : b.OpensElements) (p : Payload) : (b.leaf p).OpensElements := by
  intro id hid
  obtain ⟨n, hn, hkind⟩ := h id hid
  have hne : id ≠ b.nodes.size := (Array.getElem?_eq_some_iff.mp hn).1.ne
  rw [getElem?_leaf, if_neg hne, hn]
  split
  · exact ⟨_, rfl, hkind⟩
  · exact ⟨n, rfl, hkind⟩

theorem leaves (h : b.OpensElements) (payloads : List Payload) :
    (payloads.foldl Builder.leaf b).OpensElements := by
  induction payloads generalizing b with
  | nil => exact h
  | cons p payloads ih => exact ih (h.leaf p)

theorem enter (h : b.OpensElements) {p : Payload} (hp : p.kind = .xmlElement) :
    (b.enter p).OpensElements := by
  refine List.forall_mem_cons.mpr ⟨⟨{ toPayload := p, parent := some b.current }, ?_, hp⟩, h.leaf p⟩
  show (b.leaf p).nodes[b.next]? = _
  rw [getElem?_leaf, if_pos (show b.next = b.nodes.size from rfl)]

theorem leave (h : b.OpensElements) : b.leave.OpensElements :=
  fun id hid => h id (List.mem_of_mem_tail hid)

end OpensElements

theorem shown_leaves (b : Builder) (payloads : List Payload) :
    (payloads.foldl leaf b).shown = b.shown ++ payloads.filterMap (·.shown?) := by
  induction payloads generalizing b with
  | nil => simp
  | cons p payloads ih =>
      rw [List.foldl_cons, ih, shown_leaf, List.append_assoc, List.filterMap_cons]
      cases p.shown? <;> rfl

end Builder

namespace Xml

open Text (byteLength)

variable {b b' : Builder} {source input before rest : List Char} {ps : List Place}

theorem closeElement_opensElements (h : b.OpensElements) (stop : Nat) :
    (closeElement stop b).OpensElements := by
  rw [closeElement]
  split
  · exact h.leave
  · intro id hid
    obtain ⟨n, hn, hkind⟩ := h id (List.mem_of_mem_tail hid)
    refine ⟨if b.current = id then { n with stop } else n, ?_, ?_⟩
    · show (b.nodes.modify b.current _)[id]? = _
      rw [Array.getElem?_modify, hn]
      split <;> rfl
    · split <;> exact hkind

theorem shown_closeElement (h : b.OpensElements) (stop : Nat) :
    (closeElement stop b).shown = b.shown := by
  rw [closeElement, Builder.shown_leave]
  split
  · rfl
  · rename_i hopened
    refine Builder.filterMap_modify _ _ fun n hn => ?_
    obtain ⟨id, ids, hids⟩ := List.exists_cons_of_ne_nil (mt List.isEmpty_iff.mpr hopened)
    obtain ⟨n', hn', hkind⟩ := h id (by simp [hids])
    rw [Builder.current, hids, List.headD_cons, hn'] at hn
    obtain rfl := Option.some.inj hn
    simp [Payload.shown?, hkind]

/-! ### The attributes of a document -/

def Markup.tag? : Markup → Option (List Char × List Char)
  | opening content => some (content, ['>'])
  | single content => some (content, ['/', '>'])
  | closing _ | other => none

theorem tag?_of_bang {cs : List Char} {m : Markup} (h : bang cs = .ok (m, rest)) :
    m.tag? = none := by
  simp only [bang, skipComment] at h
  repeat' split at h
  all_goals cases h
  all_goals rfl

theorem append_of_markup {cs : List Char} {m : Markup} (h : markup cs = .ok (m, rest))
    {content ending : List Char} (hm : m.tag? = some (content, ending)) :
    cs = content ++ ending ++ rest := by
  unfold markup at h
  split at h
  · cases h
  · rw [tag?_of_bang h] at hm
    cases hm
  · split at h
    · split at h
      · cases h
      · cases h
        cases hm
    · cases h
  · split at h
    · cases h
      cases hm
    · cases h
  · split at h
    · rename_i tag rest hsplit
      split at h
      · rename_i hlast
        cases h
        cases hm
        rw [append_of_splitTag hsplit, ← List.dropLast_append_getLast? '/' (beq_iff_eq.mp hlast)]
        simp
      · cases h
        cases hm
        rw [append_of_splitTag hsplit]
        simp
    · cases h

/-- A tag may have white space before it. -/
theorem tag_of_next {m : Markup} (h : next input = .ok (some (m, rest)))
    {content ending : List Char} (hm : m.tag? = some (content, ending)) :
    ∃ gap, input = gap ++ '<' :: (content ++ ending) ++ rest ∧ ∀ c ∈ gap, isSpace c = true := by
  rw [next] at h
  split at h
  · cases h
  · rename_i cs hcs
    obtain ⟨found, hmarkup, heq⟩ := map_eq_ok_iff.mp h
    obtain rfl := Option.some.inj heq
    refine ⟨input.takeWhile isSpace, ?_, fun c => List.mem_takeWhile_imp⟩
    rw [List.append_assoc, List.cons_append, ← append_of_markup hmarkup hm, ← hcs,
      List.takeWhile_append_dropWhile]
  · split at h
    · cases h
      cases hm
    · cases h
  · cases h
    cases hm

/-- The attributes of an input, in order; `before` is what stands before it. -/
inductive Attributed : (before input : List Char) → List Place → Prop
  | ended {before input : List Char} (h : next input = .ok none) : Attributed before input []
  | other {before input piece rest : List Char} {m : Markup} {ps : List Place}
      (h : next input = .ok (some (m, rest))) (hm : m.tag? = none) (hinput : input = piece ++ rest)
      (hrest : Attributed (before ++ piece) rest ps) : Attributed before input ps
  | tag {before input gap content ending rest : List Char} {m : Markup} {ps later : List Place}
      (h : next input = .ok (some (m, rest))) (hm : m.tag? = some (content, ending))
      (hinput : input = gap ++ '<' :: (content ++ ending) ++ rest)
      (hgap : ∀ c ∈ gap, isSpace c = true)
      (hps : Spells (before ++ gap) ('<' :: tagName content)
        (content.drop (tagName content).length) ps)
      (hrest : Attributed (before ++ (gap ++ '<' :: (content ++ ending))) rest later) :
      Attributed before input (ps ++ later)

theorem append_drop_tagName (content : List Char) :
    tagName content ++ content.drop (tagName content).length = content :=
  List.prefix_iff_eq_append.mp (List.takeWhile_prefix _)

/-- The name of a tag ends with the tag or before white space. -/
theorem canFollow_tagName (content : List Char) :
    CanFollow ('<' :: tagName content) (content.drop (tagName content).length) := by
  obtain ⟨front, c, hfront⟩ := (List.eq_nil_or_concat' ('<' :: tagName content)).resolve_left
    (List.cons_ne_nil _ _)
  refine ⟨front, c, hfront, .inr fun d hd => ?_⟩
  have htail : content.drop (tagName content).length = content.dropWhile fun c => !isSpace c :=
    List.append_cancel_left ((append_drop_tagName content).trans
      List.takeWhile_append_dropWhile.symm)
  have := List.head?_dropWhile_not (fun c => !isSpace c) content
  rw [htail] at hd
  simp_all

namespace Attributed

/-- An attribute stands in the text where its place says, and is written there. -/
theorem exists_append (h : Attributed before input ps) :
    ∀ p ∈ ps, p.IsSet ∧ ∃ rest, before ++ input = p.before ++ p.front ++ p.text ++ rest := by
  induction h with
  | ended => simp
  | other _ _ hinput _ ih =>
      intro p hp
      obtain ⟨hset, rest, heq⟩ := ih p hp
      exact ⟨hset, rest, by rw [← heq, hinput, List.append_assoc]⟩
  | @tag before _ gap content ending rest _ _ _ _ _ hinput _ hps _ ih =>
      intro p hp
      rcases List.mem_append.mp hp with hp | hp
      · obtain ⟨hbefore, tail, heq⟩ := hps.exists_append p hp
        rw [List.cons_append, append_drop_tagName] at heq
        refine ⟨hps.isSet (canFollow_tagName content) p hp, tail ++ ending ++ rest, ?_⟩
        rw [hinput, hbefore]
        simp only [← List.append_assoc, ← List.cons_append] at heq ⊢
        rw [List.append_assoc _ ('<' :: content), heq]
        simp
      · obtain ⟨hset, rest', heq⟩ := ih p hp
        exact ⟨hset, rest', by rw [← heq, hinput]; simp⟩

theorem le_start (h : Attributed before input ps) : ∀ p ∈ ps, byteLength before ≤ p.start := by
  induction h with
  | ended => simp
  | other _ _ _ _ ih =>
      intro p hp
      have := ih p hp
      rw [Text.byteLength_append] at this
      omega
  | tag _ _ _ _ hps _ ih =>
      intro p hp
      rcases List.mem_append.mp hp with hp | hp
      · have := hps.le_start p hp
        simp only [Text.byteLength_append] at this
        omega
      · have := ih p hp
        rw [Text.byteLength_append] at this
        omega

theorem pairwise (h : Attributed before input ps) :
    ps.Pairwise fun p q => p.stop ≤ q.start := by
  induction h with
  | ended => exact .nil
  | other _ _ _ _ ih => exact ih
  | @tag before _ gap content ending rest _ _ _ _ _ _ _ hps hrest ih =>
      refine List.pairwise_append.mpr ⟨hps.pairwise, ih, fun p hp q hq => ?_⟩
      obtain ⟨hbefore, tail, heq⟩ := hps.exists_append p hp
      have hq := hrest.le_start q hq
      have hlength := congrArg byteLength heq
      rw [List.cons_append, append_drop_tagName] at hlength
      rw [Place.stop, hbefore]
      simp only [Text.byteLength_append, Text.byteLength_cons] at hq hlength ⊢
      omega

theorem unique {ps' : List Place} (h : Attributed before input ps)
    (h' : Attributed before input ps') : ps = ps' := by
  induction h generalizing ps' with
  | ended h =>
      cases h' with
      | ended => rfl
      | other h' | tag h' => cases h.symm.trans h'
  | other h hm hinput _ ih =>
      cases h' with
      | ended h' => cases h.symm.trans h'
      | other h' _ hinput' hrest' =>
          cases h.symm.trans h'
          obtain rfl := List.append_cancel_right (hinput.symm.trans hinput')
          exact ih hrest'
      | tag h' hm' =>
          cases h.symm.trans h'
          cases hm.symm.trans hm'
  | tag h hm hinput hgap hps _ ih =>
      cases h' with
      | ended h' => cases h.symm.trans h'
      | other h' hm' =>
          cases h.symm.trans h'
          cases hm.symm.trans hm'
      | tag h' hm' hinput' hgap' hps' hrest' =>
          cases h.symm.trans h'
          cases hm.symm.trans hm'
          obtain rfl := List.append_cancel_right
            (List.append_cancel_right (hinput.symm.trans hinput'))
          rw [hps.unique hps', ih hrest']

end Attributed

/-! ### Nodes and places -/

structure Shown.IsOf (s : Shown) (a : RawAttribute) : Prop where
  space : s.space = (splitName a.key).1
  name : s.name = some (splitName a.key).2
  value : s.value = some (String.ofList ((unescape? a.value).getD a.value))

def Shown.Spans (s : Shown) (p : Place) : Prop := s.start = p.start ∧ s.stop = p.stop

/-- The node is that of the attribute, and spans its text just if that is plain. -/
structure Shown.Shows (s : Shown) (p : Place) : Prop where
  isOf : s.IsOf p.raw
  spans_iff : s.Spans p ↔ p.IsPlain

/-- The tag of an element is found where it stands. -/
theorem tag_of_event {gap tag : List Char} {e : Event} (rest : List Char)
    (hgap : ∀ c ∈ gap, isSpace c = true) (hbefore : e.before = byteLength before)
    (hafter : e.after = byteLength (before ++ (gap ++ '<' :: tag))) :
    markupStart (before ++ (gap ++ '<' :: tag) ++ rest) e = byteLength (before ++ gap) ∧
      slice (before ++ (gap ++ '<' :: tag) ++ rest) (byteLength (before ++ gap)) e.after =
        '<' :: tag := by
  have hpiece : slice (before ++ (gap ++ '<' :: tag) ++ rest) e.before e.after =
      gap ++ '<' :: tag := by
    rw [slice, hbefore, hafter, Text.sliceChars?_append, Option.getD_some]
  have hfind : find? ['<'] (gap ++ '<' :: tag) = some (byteLength gap) := by
    refine find?_eq_byteLength_iff.mpr ⟨⟨tag, rfl⟩, fun front' rest' heq => ?_⟩
    by_contra hlt
    -- an earlier bracket would stand in the white space
    have hmem : '<' ∈ gap := by
      rcases List.append_eq_append_iff.mp heq with ⟨middle, rfl, -⟩ | ⟨middle, rfl, hmiddle⟩
      · simp at hlt
      · cases middle with
        | nil => simp at hlt
        | cons c middle =>
            obtain ⟨rfl, -⟩ := List.cons.inj hmiddle
            simp
    exact absurd (hgap _ hmem) (by decide)
  constructor
  · rw [markupStart, hpiece, hfind, hbefore, Text.byteLength_append]
  · have := Text.sliceChars?_append (before ++ gap) ('<' :: tag) rest
    rw [slice, hafter, ← List.append_assoc before gap, this, Option.getD_some]

def RawAttribute.shown (a : RawAttribute) (tag : List Char) (start stop : Nat) : Shown :=
  let p := attributePayload tag start stop a
  ⟨p.space, p.name, p.value, p.start, p.stop⟩

theorem Place.IsSet.shows {p : Place} (h : p.IsSet) {tag : List Char} {stop : Nat}
    (htag : tag = p.front ++ (p.text ++ rest)) (hstop : p.stop < stop) :
    (p.raw.shown tag (byteLength p.before) stop).Shows p := by
  subst htag
  exact ⟨⟨rfl, rfl, rfl⟩, h.span_iff_isPlain hstop⟩

theorem shown_enterElement {e : Event} {content : List Char}
    (h : enterElement source e content b = .ok b') :
    (b.OpensElements → b'.OpensElements) ∧ ∃ as, attributes content = .ok as ∧
      b'.shown = b.shown ++ as.map fun a =>
        a.shown (slice source (markupStart source e) e.after) (markupStart source e) e.after := by
  rw [enterElement] at h
  obtain ⟨as, has, h⟩ := bind_eq_ok_iff.mp h
  cases h
  rw [← List.foldl_map]
  refine ⟨fun hb => .leaves (hb.enter rfl) _, as, has, ?_⟩
  rw [Builder.shown_leaves, Builder.shown_enter, List.filterMap_map]
  refine congrArg₂ (· ++ ·) (List.append_nil _) ?_
  rw [← List.filterMap_eq_map]
  rfl

/-- The attributes of a tag get one node each, wherever the tag stands in the source. -/
theorem enterElement_shows {gap content ending : List Char} {e : Event}
    (hgap : ∀ c ∈ gap, isSpace c = true) (hending : ending ≠ [])
    (hbefore : e.before = byteLength before)
    (hafter : e.after = byteLength (before ++ (gap ++ '<' :: (content ++ ending))))
    (h : enterElement (before ++ (gap ++ '<' :: (content ++ ending)) ++ rest) e content b =
      .ok b') :
    (b.OpensElements → b'.OpensElements) ∧ ∃ ps shown,
      Spells (before ++ gap) ('<' :: tagName content) (content.drop (tagName content).length) ps ∧
      b'.shown = b.shown ++ shown ∧ List.Forall₂ Shown.Shows shown ps := by
  obtain ⟨hstart, htag⟩ := tag_of_event rest hgap hbefore hafter
  obtain ⟨hopens, as, has, hshown⟩ := shown_enterElement h
  obtain ⟨ps, hps, rfl⟩ := (attributesFrom_eq_ok_iff (before ++ gap)
    ('<' :: tagName content) (by simp)).mp has
  rw [hstart, htag, List.map_map] at hshown
  refine ⟨hopens, ps, _, hps, hshown, ?_⟩
  rw [List.forall₂_map_left_iff, List.forall₂_same]
  intro p hp
  obtain ⟨heq, tail, htext⟩ := hps.exists_append p hp
  rw [List.cons_append, append_drop_tagName] at htext
  have hset := hps.isSet (canFollow_tagName content) p hp
  have hpos := Text.byteLength_pos hending
  have hlength := congrArg byteLength htext
  have htag : '<' :: (content ++ ending) = p.front ++ (p.text ++ (tail ++ ending)) := by
    rw [← List.cons_append, htext]
    simp
  have hstop : p.stop < e.after := by
    rw [hafter, Place.stop, heq]
    simp only [Text.byteLength_append, Text.byteLength_cons] at hlength ⊢
    omega
  rw [Function.comp_apply, ← heq]
  exact hset.shows htag hstop

theorem ending_ne_nil {m : Markup} {content ending : List Char}
    (h : m.tag? = some (content, ending)) : ending ≠ [] := by
  cases m <;> cases h <;> exact List.cons_ne_nil _ _

/-- A tag enters its element, and one without content leaves it at once. -/
theorem addEvent_tag {e : Event} {content ending : List Char}
    (hm : e.markup.tag? = some (content, ending)) (h : addEvent source b e = .ok b') :
    ∃ b₁, enterElement source e content b = .ok b₁ ∧ b'.shown = b₁.shown ∧
      (b₁.OpensElements → b'.OpensElements) := by
  rw [addEvent] at h
  cases hmarkup : e.markup with
  | opening =>
      rw [hmarkup] at h hm
      cases hm
      exact ⟨b', h, rfl, id⟩
  | single =>
      rw [hmarkup] at h hm
      cases hm
      obtain ⟨b₁, henter, rfl⟩ := map_eq_ok_iff.mp h
      exact ⟨b₁, henter, rfl, .leave⟩
  | closing | other =>
      rw [hmarkup] at hm
      cases hm

/-- All other markup shows no attribute. -/
theorem addEvent_other {e : Event} (hm : e.markup.tag? = none) (hb : b.OpensElements)
    (h : addEvent source b e = .ok b') : b'.OpensElements ∧ b'.shown = b.shown := by
  rw [addEvent] at h
  cases hmarkup : e.markup with
  | opening | single =>
      rw [hmarkup] at hm
      cases hm
  | closing name =>
      rw [hmarkup] at h
      cases h
      exact ⟨closeElement_opensElements hb e.after, shown_closeElement hb e.after⟩
  | other =>
      rw [hmarkup] at h
      cases h
      exact ⟨hb, rfl⟩

/-- The attributes of an input get one node each, in order. -/
theorem foldlM_addEvent_shows {n : Nat} {opened : List (List Char)} {es : List Event}
    (before : List Char) (hn : input.length < n)
    (hes : eventsFrom n opened (byteLength before) input = .ok es)
    (hb : b.OpensElements) (h : es.foldlM (addEvent (before ++ input)) b = .ok b') :
    ∃ ps shown, Attributed before input ps ∧ b'.shown = b.shown ++ shown ∧
      List.Forall₂ Shown.Shows shown ps := by
  induction n generalizing opened before input es b with
  | zero => exact absurd hn (Nat.not_lt_zero _)
  | succ n ih =>
      rcases eventsFrom_succ_eq_ok_iff.mp hes with
        ⟨hnext, rfl⟩ | ⟨m, rest, opened', after, later, hnext, -, hlater, hafter, rfl⟩
      · cases h
        exact ⟨[], [], .ended hnext, by simp, .nil⟩
      · have hshorter : rest.length < n :=
          Nat.lt_of_lt_of_le (length_lt_of_next hnext) (Nat.lt_succ_iff.mp hn)
        -- the offset after a piece counts what stands before the rest
        have hoffset : ∀ {piece}, input = piece ++ rest → after = byteLength (before ++ piece) := by
          rintro piece rfl
          rw [hafter, Text.byteLength_append, Text.byteLength_append]
          omega
        rw [List.foldlM_cons] at h
        obtain ⟨b₁, hfirst, hrest⟩ := bind_eq_ok_iff.mp h
        cases hm : m.tag? with
        | none =>
            obtain ⟨piece, -, hpiece⟩ := append_of_next hnext
            obtain ⟨hb₁, hshown₁⟩ := addEvent_other hm hb hfirst
            rw [hoffset hpiece] at hlater
            rw [hpiece, ← List.append_assoc] at hrest
            obtain ⟨ps, shown, hps, hshown, hshows⟩ := ih _ hshorter hlater hb₁ hrest
            exact ⟨ps, shown, .other hnext hm hpiece hps, hshown₁ ▸ hshown, hshows⟩
        | some found =>
            obtain ⟨content, ending⟩ := found
            obtain ⟨gap, hinput, hgap⟩ := tag_of_next hnext hm
            obtain ⟨b₂, henter, hshown₁, hleave⟩ := addEvent_tag hm hfirst
            rw [hoffset hinput] at hlater
            rw [hinput, ← List.append_assoc] at hrest henter
            obtain ⟨hopens, ps, first, hspells, hshown₂, hshows⟩ :=
              enterElement_shows hgap (ending_ne_nil hm) rfl (hoffset hinput) henter
            obtain ⟨later, shown, hrest, hshown, hshows'⟩ :=
              ih _ hshorter hlater (hleave (hopens hb)) hrest
            refine ⟨ps ++ later, first ++ shown, .tag hnext hm hinput hgap hspells hrest, ?_,
              List.rel_append hshows hshows'⟩
            rw [hshown, hshown₁, hshown₂, List.append_assoc]

/-! ### Documents -/

/-- The attributes of a source text, in order. A byte order mark in front is not part
of the document, but has its place in the source. -/
def AttributesOf (source : String) (ps : List Place) : Prop :=
  ∃ mark, source.toList = mark ++ Text.unmarked source.toList ∧
    Attributed mark (Text.unmarked source.toList) ps

theorem AttributesOf.unique {source : String} {ps' : List Place} (h : AttributesOf source ps)
    (h' : AttributesOf source ps') : ps = ps' := by
  obtain ⟨mark, hmark, h⟩ := h
  obtain ⟨mark', hmark', h'⟩ := h'
  obtain rfl := List.append_cancel_right (hmark.symm.trans hmark')
  exact h.unique h'

/-- The places of attributes are those of their texts in the source. -/
theorem AttributesOf.written {source : String} (h : AttributesOf source ps) :
    ∀ p ∈ ps, p.raw.IsWritten p.text ∧
      Text.sliceChars? source.toList p.start p.stop = some p.text := by
  obtain ⟨mark, hmark, h⟩ := h
  intro p hp
  obtain ⟨hset, rest, heq⟩ := h.exists_append p hp
  refine ⟨hset.written, ?_⟩
  rw [hmark, heq]
  exact Text.sliceChars?_append (p.before ++ p.front) p.text rest

theorem AttributesOf.pairwise {source : String} (h : AttributesOf source ps) :
    ps.Pairwise fun p q => p.stop ≤ q.start := by
  obtain ⟨mark, -, h⟩ := h
  exact h.pairwise

/-- Every attribute has a node that spans its own text, and the nodes span texts that
follow each other. -/
structure SpansAttributes (source : String) (t : Tree) : Prop where
  spans : ∀ ps, AttributesOf source ps → List.Forall₂ Shown.Spans t.shown ps
  ordered : t.shown.Pairwise fun s s' => s.stop ≤ s'.start

theorem toTree_shows {file : Path} {scope : Scope} {source : String} {t : Tree}
    (hmark : source.toList.head? ≠ some '\uFEFF') (h : toTree file scope source = .ok t) :
    ∃ ps, AttributesOf source ps ∧ List.Forall₂ Shown.Shows t.shown ps := by
  have hplain : Text.unmarked source.toList = source.toList := by
    rw [Text.unmarked]
    rintro cs hcs
    simp [hcs] at hmark
  rw [toTree] at h
  split at h
  · rename_i b hbuild
    cases h
    obtain ⟨es, hes, hbuild⟩ := bind_eq_ok_iff.mp hbuild
    rw [events, hplain] at hes
    have hstart : (Builder.start file .xml scope (some source) {}).OpensElements := by
      simp [Builder.OpensElements, Builder.start]
    obtain ⟨ps, shown, hps, hshown, hshows⟩ :=
      foldlM_addEvent_shows [] (Nat.lt_succ_self _) hes hstart hbuild
    refine ⟨ps, ⟨[], by rw [hplain]; rfl, by rwa [hplain]⟩, ?_⟩
    rwa [Builder.shown_build, hshown]
  · cases h

/-- Nodes span the texts of their attributes just if all these are plain. -/
theorem forall₂_spans_iff {shown : List Shown} (h : List.Forall₂ Shown.Shows shown ps) :
    List.Forall₂ Shown.Spans shown ps ↔ ∀ p ∈ ps, p.IsPlain := by
  induction h with
  | nil => simp
  | cons hs _ ih => rw [List.forall₂_cons, hs.spans_iff, ih, List.forall_mem_cons]

theorem pairwise_of_spans {shown : List Shown} (h : List.Forall₂ Shown.Spans shown ps)
    (hps : ps.Pairwise fun p q => p.stop ≤ q.start) :
    shown.Pairwise fun s s' => s.stop ≤ s'.start := by
  have hspans : shown.map (fun s => (s.start, s.stop)) = ps.map fun p => (p.start, p.stop) := by
    rw [← List.forall₂_eq_eq_eq, List.forall₂_map_left_iff, List.forall₂_map_right_iff]
    exact h.imp fun _ _ hs => Prod.ext hs.1 hs.2
  have hpairs : (ps.map fun p => (p.start, p.stop)).Pairwise fun x y => x.2 ≤ y.1 :=
    List.pairwise_map.mpr hps
  rw [← hspans] at hpairs
  exact List.pairwise_map.mp hpairs

/-- Every attribute of a document that is read has its one node, in order, which
spans the attribute's own text just if the attribute is plain. -/
theorem spansAttributes_iff_isPlain {file : Path} {scope : Scope} {source : String} {t : Tree}
    (hmark : source.toList.head? ≠ some '\uFEFF') (h : toTree file scope source = .ok t) :
    ∃ ps, (∀ ps', AttributesOf source ps' ↔ ps' = ps) ∧
      (∀ p ∈ ps, p.raw.IsWritten p.text ∧
        Text.sliceChars? source.toList p.start p.stop = some p.text) ∧
      List.Forall₂ Shown.Shows t.shown ps ∧
      (SpansAttributes source t ↔ ∀ p ∈ ps, p.IsPlain) := by
  obtain ⟨ps, hps, hshows⟩ := toTree_shows hmark h
  refine ⟨ps, fun ps' => ⟨fun h' => h'.unique hps, fun h' => h' ▸ hps⟩, hps.written, hshows, ?_⟩
  rw [← forall₂_spans_iff hshows]
  constructor
  · exact fun hspans => hspans.spans ps hps
  · intro hspans
    exact ⟨fun ps' hps' => hps'.unique hps ▸ hspans, pairwise_of_spans hspans hps.pairwise⟩

theorem toOption_eq_some_iff {ε α : Type} {x : Except ε α} {a : α} :
    x.toOption = some a ↔ x = .ok a := by
  cases x <;> simp [Except.toOption]

def quotedSource : String := "<a b=\"1\" c='\"'/>"

def quotedPlaces : List Place :=
  [⟨[], ['<', 'a', ' '], ⟨['b'], ['1']⟩, ['b', '=', '"', '1', '"']⟩,
    ⟨[], ['<', 'a', ' ', 'b', '=', '"', '1', '"', ' '], ⟨['c'], ['"']⟩,
      ['c', '=', '\'', '"', '\'']⟩]

theorem quotedSource_attributes : AttributesOf quotedSource quotedPlaces := by
  let content := ['a', ' ', 'b', '=', '"', '1', '"', ' ', 'c', '=', '\'', '"', '\'']
  have hsource : quotedSource.toList = '<' :: (content ++ ['/', '>']) := by
    decide +kernel
  have hfirst : RawAttribute.IsWritten ⟨['b'], ['1']⟩ ['b', '=', '"', '1', '"'] :=
    ⟨⟨'b', [], rfl, rfl, nofun⟩, [], [], '"', rfl, nofun, nofun, rfl, by decide⟩
  have hsecond : RawAttribute.IsWritten ⟨['c'], ['"']⟩ ['c', '=', '\'', '"', '\''] :=
    ⟨⟨'c', [], rfl, rfl, nofun⟩, [], [], '\'', rfl, nofun, nofun, rfl, by decide⟩
  have hspace : ∀ c ∈ [' '], isSpace c = true := by simp [isSpace]
  have hnil : ∀ c ∈ [], isSpace c = true := nofun
  have hspells : Spells [] ['<', 'a'] (content.drop 1) quotedPlaces :=
    .cons hspace hfirst (.cons hspace hsecond (.nil hnil))
  have hnext : next ('<' :: (content ++ ['/', '>'])) = .ok (some (.single content, [])) := rfl
  have hattributed : Attributed [] ('<' :: (content ++ ['/', '>'])) (quotedPlaces ++ []) :=
    .tag hnext rfl (show _ = [] ++ '<' :: (content ++ ['/', '>']) ++ [] from rfl) nofun hspells
      (.ended rfl)
  rw [AttributesOf, hsource]
  exact ⟨[], rfl, hattributed⟩

theorem spansAttributes_quotedSource :
    ∃ t, toTree ⟨"res/layout/main.xml"⟩ .resourceFile quotedSource = .ok t ∧
      SpansAttributes quotedSource t := by
  have hread : (toTree ⟨"res/layout/main.xml"⟩ .resourceFile quotedSource).toOption.isSome := by
    decide +kernel
  obtain ⟨t, ht⟩ := Option.isSome_iff_exists.mp hread
  rw [toOption_eq_some_iff] at ht
  obtain ⟨ps, hps, -, -, hiff⟩ := spansAttributes_iff_isPlain (by decide) ht
  obtain rfl := (hps _).mp quotedSource_attributes
  refine ⟨t, ht, hiff.mpr (List.forall_mem_cons.mpr ⟨?_, List.forall_mem_singleton.mpr ?_⟩)⟩
  · exact ⟨by decide, List.forall_mem_singleton.mpr rfl, by decide⟩
  · exact ⟨by decide, List.forall_mem_singleton.mpr rfl, by decide⟩

def nestedKeySource : String := "<a bx=\"1\" x=\"2\"/>"

/-- The later attribute is taken for a part of the earlier one. -/
theorem nestedKeySource_not_spansAttributes :
    ∃ t, toTree ⟨"res/layout/main.xml"⟩ .resourceFile nestedKeySource = .ok t ∧
      ¬SpansAttributes nestedKeySource t := by
  have hspans : (toTree ⟨"res/layout/main.xml"⟩ .resourceFile nestedKeySource).toOption.map
      (fun t => t.shown.map fun s => (s.start, s.stop)) = some [(3, 9), (4, 9)] := by
    decide +kernel
  obtain ⟨t, ht, hshown⟩ := Option.map_eq_some_iff.mp hspans
  refine ⟨t, toOption_eq_some_iff.mp ht, fun h => ?_⟩
  have hordered : (t.shown.map fun s => (s.start, s.stop)).Pairwise fun x y => x.2 ≤ y.1 :=
    List.pairwise_map.mpr h.ordered
  rw [hshown] at hordered
  exact absurd hordered (by decide)

end Xml

end LintEngine
