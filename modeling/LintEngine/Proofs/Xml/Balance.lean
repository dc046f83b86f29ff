import LintEngine.Xml.Lowering
import Mathlib.Data.List.Basic

/-!
Which texts are read as XML.

The markup of a text is what the reader of single pieces delivers, one piece
after the other. Markup is balanced if it is built from text, tags that close
themselves, and elements with balanced markup between a start tag and an end tag
of the same name; this says nothing of a stack. The stack of open elements that
is kept while reading is tied to it: it holds exactly the names whose end tags
would balance what has been read.

So a text that is read has no end tag out of place, but it may break off inside
an element. These texts, and no others, are read without being balanced.
-/

namespace LintEngine.Xml

theorem bind_eq_ok_iff {ε α β : Type} {x : Except ε α} {f : α → Except ε β} {b : β} :
    (x >>= f) = .ok b ↔ ∃ a, x = .ok a ∧ f a = .ok b := by
  cases x with
  | ok a => exact ⟨fun h => ⟨a, rfl, h⟩, fun ⟨_, ha, h⟩ => Except.ok.inj ha ▸ h⟩
  | error e => exact ⟨nofun, nofun⟩

theorem map_eq_ok_iff {ε α β : Type} {x : Except ε α} {f : α → β} {b : β} :
    x.map f = .ok b ↔ ∃ a, x = .ok a ∧ f a = b := by
  cases x with
  | error e => exact iff_of_false nofun nofun
  | ok a => simp [Except.map]

/-! ### What a piece of input leaves -/

theorem append_of_splitAtPiece {piece cs front rest : List Char}
    (h : splitAtPiece piece cs = some (front, rest)) : cs = front ++ (piece ++ rest) := by
  induction cs generalizing front with
  | nil =>
      rw [splitAtPiece] at h
      split at h
      · rename_i hpiece
        cases h
        rw [List.isEmpty_iff.mp hpiece]
        rfl
      · cases h
  | cons c cs ih =>
      rw [splitAtPiece] at h
      split at h
      · rename_i hpiece
        cases h
        exact (List.isPrefixOf?_eq_some_iff_append_eq.mp hpiece).symm
      · obtain ⟨⟨front', rest'⟩, hsplit, heq⟩ := Option.map_eq_some_iff.mp h
        cases heq
        rw [ih hsplit]
        rfl

theorem suffix_of_splitAtPiece {piece cs front rest : List Char}
    (h : splitAtPiece piece cs = some (front, rest)) : rest <:+ cs :=
  ⟨front ++ piece, by rw [append_of_splitAtPiece h, List.append_assoc]⟩

theorem append_of_splitTag {quote : Option Char} {cs front rest : List Char}
    (h : splitTag quote cs = some (front, rest)) : cs = front ++ '>' :: rest := by
  fun_induction splitTag quote cs generalizing front with
  | case1 => cases h
  | case2 cs =>
      cases h
      rfl
  | case3 | case4 =>
      rename_i ih
      obtain ⟨⟨front', rest'⟩, hsplit, heq⟩ := Option.map_eq_some_iff.mp h
      cases heq
      rw [ih hsplit]
      rfl

theorem suffix_of_splitTag {quote : Option Char} {cs front rest : List Char}
    (h : splitTag quote cs = some (front, rest)) : rest <:+ cs :=
  ⟨front ++ ['>'], by rw [append_of_splitTag h, List.append_assoc, List.singleton_append]⟩

theorem suffix_of_skipDeclaration {depth : Nat} {cs rest : List Char}
    (h : skipDeclaration depth cs = some rest) : rest <:+ cs := by
  fun_induction skipDeclaration depth cs with
  | case1 => cases h
  | case3 depth =>
      cases h
      exact List.suffix_cons ..
  | case2 depth cs ih | case4 depth cs hdepth ih | case5 depth c cs _ _ ih =>
      exact (ih h).trans (List.suffix_cons ..)

theorem suffix_of_dropPiece? {piece : String} {cs rest : List Char}
    (h : dropPiece? piece cs = some rest) : rest <:+ cs :=
  ⟨piece.toList, List.isPrefixOf?_eq_some_iff_append_eq.mp h⟩

theorem suffix_of_bang {cs rest : List Char} {m : Markup} (h : bang cs = .ok (m, rest)) :
    rest <:+ cs := by
  rw [bang] at h
  split at h
  · rename_i hpiece
    rw [skipComment] at h
    split at h
    · rename_i hsplit
      cases h
      exact (suffix_of_splitAtPiece hsplit).trans (suffix_of_dropPiece? hpiece)
    · cases h
  · split at h
    · rename_i hpiece
      split at h
      · rename_i hsplit
        cases h
        exact (suffix_of_splitAtPiece hsplit).trans (suffix_of_dropPiece? hpiece)
      · cases h
    · split at h
      · split at h
        · rename_i hskip
          split at h
          · cases h
          · cases h
            exact (suffix_of_skipDeclaration hskip).trans (List.drop_suffix ..)
        · cases h
      · cases h

theorem suffix_of_markup {cs rest : List Char} {m : Markup} (h : markup cs = .ok (m, rest)) :
    rest <:+ cs := by
  unfold markup at h
  split at h
  · cases h
  · exact (suffix_of_bang h).trans (List.suffix_cons ..)
  · split at h
    · rename_i hsplit
      split at h
      · cases h
      · cases h
        exact suffix_of_splitAtPiece hsplit
    · cases h
  · split at h
    · rename_i hsplit
      cases h
      exact (suffix_of_splitAtPiece hsplit).trans (List.suffix_cons ..)
    · cases h
  · split at h
    · rename_i hsplit
      split at h <;> cases h <;> exact suffix_of_splitTag hsplit
    · cases h

theorem append_of_next {input rest : List Char} {m : Markup}
    (h : next input = .ok (some (m, rest))) : ∃ piece, piece ≠ [] ∧ input = piece ++ rest := by
  -- a suffix of what follows the first character after white space
  have hpiece : ∀ {c : Char} {cs : List Char}, input.dropWhile isSpace = c :: cs → rest <:+ cs →
      ∃ piece, piece ≠ [] ∧ input = piece ++ rest := by
    rintro c cs hinput ⟨front, rfl⟩
    refine ⟨input.takeWhile isSpace ++ c :: front, by simp, ?_⟩
    rw [List.append_assoc, List.cons_append, ← hinput, List.takeWhile_append_dropWhile]
  rw [next] at h
  split at h
  · cases h
  · rename_i cs hinput
    obtain ⟨found, hmarkup, heq⟩ := map_eq_ok_iff.mp h
    obtain rfl := Option.some.inj heq
    exact hpiece hinput (suffix_of_markup hmarkup)
  · rename_i cs hinput
    split at h
    · rename_i hreference
      cases h
      refine hpiece hinput (.trans (List.suffix_cons ';' _) ?_)
      exact hreference ▸ List.dropWhile_suffix _
    · cases h
  · rename_i hblank hmarkup hreference
    cases hinput : input.dropWhile isSpace with
    | nil => exact (hblank hinput).elim
    | cons c cs =>
        rw [hinput] at h
        cases h
        refine hpiece hinput ?_
        have hc : (c != '<' && c != '&') = true := by
          rw [Bool.and_eq_true, bne_iff_ne, bne_iff_ne]
          constructor
          · rintro rfl
            exact hmarkup cs hinput
          · rintro rfl
            exact hreference cs hinput
        rw [List.dropWhile_cons, if_pos hc]
        exact List.dropWhile_suffix _

theorem length_lt_of_next {input rest : List Char} {m : Markup}
    (h : next input = .ok (some (m, rest))) : rest.length < input.length := by
  obtain ⟨piece, hpiece, rfl⟩ := append_of_next h
  have := List.length_pos_of_ne_nil hpiece
  rw [List.length_append]
  omega

/-! ### The markup of a text -/

inductive Reads : List Char → List Markup → Prop
  | ended {input} (h : next input = .ok none) : Reads input []
  | piece {input m rest ms} (h : next input = .ok (some (m, rest))) (hrest : Reads rest ms) :
      Reads input (m :: ms)

theorem Reads.unique {input : List Char} {ms ms' : List Markup} (h : Reads input ms)
    (h' : Reads input ms') : ms = ms' := by
  induction h generalizing ms' with
  | ended h =>
      cases h' with
      | ended => rfl
      | piece h' => cases h.symm.trans h'
  | piece h _ ih =>
      cases h' with
      | ended h' => cases h.symm.trans h'
      | piece h' hrest =>
          cases h.symm.trans h'
          rw [ih hrest]

theorem eventsFrom_succ_eq_ok_iff {n offset : Nat} {opened : List (List Char)}
    {input : List Char} {es : List Event} :
    eventsFrom (n + 1) opened offset input = .ok es ↔
      (next input = .ok none ∧ es = []) ∨
      ∃ m rest opened' after later, next input = .ok (some (m, rest)) ∧
        track opened m = .ok opened' ∧ eventsFrom n opened' after rest = .ok later ∧
        after = offset + (Text.byteLength input - Text.byteLength rest) ∧
        es = { markup := m, before := offset, after } :: later := by
  rw [eventsFrom, bind_eq_ok_iff]
  constructor
  · rintro ⟨found, hnext, h⟩
    rcases found with _ | ⟨m, rest⟩
    · cases h
      exact .inl ⟨hnext, rfl⟩
    · obtain ⟨opened', htrack, h⟩ := bind_eq_ok_iff.mp h
      obtain ⟨later, hlater, h⟩ := bind_eq_ok_iff.mp h
      cases h
      exact .inr ⟨m, rest, opened', _, later, hnext, htrack, hlater, rfl, rfl⟩
  · rintro (⟨hnext, rfl⟩ | ⟨m, rest, opened', after, later, hnext, htrack, hlater, rfl, rfl⟩)
    · exact ⟨none, hnext, rfl⟩
    · exact ⟨_, hnext, bind_eq_ok_iff.mpr ⟨_, htrack, bind_eq_ok_iff.mpr ⟨_, hlater, rfl⟩⟩⟩

/-- Events can be read just if the input can, and no end tag is out of place. -/
theorem eventsFrom_eq_ok_iff {n offset : Nat} {opened : List (List Char)} {input : List Char}
    (hn : input.length < n) {ms : List Markup} :
    (∃ es, eventsFrom n opened offset input = .ok es ∧ es.map (·.markup) = ms) ↔
      Reads input ms ∧ ∃ left, ms.foldlM track opened = .ok left := by
  induction n generalizing opened offset input ms with
  | zero => exact absurd hn (Nat.not_lt_zero _)
  | succ n ih =>
      have hshorter : ∀ {m rest}, next input = .ok (some (m, rest)) → rest.length < n :=
        fun hnext => Nat.lt_of_lt_of_le (length_lt_of_next hnext) (Nat.lt_succ_iff.mp hn)
      simp only [eventsFrom_succ_eq_ok_iff]
      constructor
      · rintro ⟨es, ⟨hnext, rfl⟩ | ⟨m, rest, opened', after, later, hnext, htrack, hlater, -, rfl⟩,
          rfl⟩
        · exact ⟨.ended hnext, opened, rfl⟩
        · obtain ⟨hreads, left, hleft⟩ := (ih (hshorter hnext)).mp ⟨later, hlater, rfl⟩
          refine ⟨.piece hnext hreads, left, ?_⟩
          rw [List.map_cons, List.foldlM_cons]
          exact bind_eq_ok_iff.mpr ⟨opened', htrack, hleft⟩
      · rintro ⟨hreads, left, hleft⟩
        cases hreads with
        | ended hnext => exact ⟨[], .inl ⟨hnext, rfl⟩, rfl⟩
        | piece hnext hreads =>
            rw [List.foldlM_cons] at hleft
            obtain ⟨opened', htrack, hleft⟩ := bind_eq_ok_iff.mp hleft
            obtain ⟨later, hlater, rfl⟩ := (ih (hshorter hnext)).mpr ⟨hreads, left, hleft⟩
            exact ⟨_, .inr ⟨_, _, opened', _, later, hnext, htrack, hlater, rfl, rfl⟩, rfl⟩

/-! ### Balanced markup -/

/-- Markup in which every start tag is closed by an end tag of its name, and
every end tag closes a start tag. -/
inductive Balanced : List Markup → Prop
  | nil : Balanced []
  | other {rest} (h : Balanced rest) : Balanced (.other :: rest)
  | single {rest} (content : List Char) (h : Balanced rest) : Balanced (.single content :: rest)
  | element {inner rest} (content : List Char) (hinner : Balanced inner) (h : Balanced rest) :
      Balanced (.opening content :: (inner ++ .closing (tagName content) :: rest))

/-- Markup with an end tag for each of some open elements, and balanced markup
before, between and after these. -/
def Closes : List (List Char) → List Markup → Prop
  | [], ms => Balanced ms
  | name :: names, ms =>
    ∃ inner rest, ms = inner ++ .closing name :: rest ∧ Balanced inner ∧ Closes names rest

/-- What can stand before balanced markup can stand before markup that closes
some elements. -/
theorem Closes.extend (front : List Markup) (hfront : ∀ {ms}, Balanced ms → Balanced (front ++ ms))
    {names : List (List Char)} {ms : List Markup} (h : Closes names ms) :
    Closes names (front ++ ms) := by
  cases names with
  | nil => exact hfront h
  | cons name names =>
      obtain ⟨inner, rest, rfl, hinner, hrest⟩ := h
      exact ⟨front ++ inner, rest, (List.append_assoc ..).symm, hfront hinner, hrest⟩

theorem Balanced.track {ms : List Markup} (h : Balanced ms) (opened : List (List Char)) :
    ms.foldlM track opened = .ok opened := by
  induction h generalizing opened with
  | nil => rfl
  | other _ ih | single _ _ ih => exact ih opened
  | @element inner rest content _ _ hinner hrest =>
      rw [List.foldlM_cons]
      refine bind_eq_ok_iff.mpr ⟨tagName content :: opened, rfl, ?_⟩
      rw [List.foldlM_append]
      refine bind_eq_ok_iff.mpr ⟨_, hinner _, ?_⟩
      rw [List.foldlM_cons]
      refine bind_eq_ok_iff.mpr ⟨opened, ?_, hrest opened⟩
      exact if_pos (beq_self_eq_true _)

theorem closes_of_track {ms : List Markup} {opened : List (List Char)}
    (h : ms.foldlM track opened = .ok []) : Closes opened ms := by
  induction ms generalizing opened with
  | nil =>
      cases h
      exact Balanced.nil
  | cons m ms ih =>
      rw [List.foldlM_cons] at h
      obtain ⟨opened', htrack, hrest⟩ := bind_eq_ok_iff.mp h
      have hcloses := ih hrest
      cases m with
      | other =>
          cases htrack
          exact hcloses.extend [.other] .other
      | single content =>
          cases htrack
          exact hcloses.extend [.single content] (.single content)
      | opening content =>
          cases htrack
          obtain ⟨inner, rest, rfl, hinner, hrest⟩ := hcloses
          have h := hrest.extend (.opening content :: (inner ++ [.closing (tagName content)]))
            fun hms => by simpa using Balanced.element content hinner hms
          simpa using h
      | closing name =>
          cases opened with
          | nil => cases htrack
          | cons top names =>
              rw [Xml.track] at htrack
              split at htrack
              · rename_i htop
                cases htrack
                rw [beq_iff_eq] at htop
                subst htop
                exact ⟨[], ms, rfl, .nil, hcloses⟩
              · cases htrack

/-- End tags close the elements that they name, and no others. -/
theorem foldlM_track_closing {opened names : List (List Char)} :
    (names.map Markup.closing).foldlM track opened = .ok [] ↔ opened = names := by
  induction names generalizing opened with
  | nil => exact ⟨Except.ok.inj, congrArg Except.ok⟩
  | cons name names ih =>
      rw [List.map_cons, List.foldlM_cons, bind_eq_ok_iff]
      cases opened with
      | nil => exact iff_of_false nofun nofun
      | cons top rest =>
          rw [Xml.track, List.cons.injEq]
          by_cases htop : top = name
          · rw [if_pos (beq_iff_eq.mpr htop), and_iff_right htop, ← ih]
            exact ⟨fun ⟨_, hrest, h⟩ => Except.ok.inj hrest ▸ h, fun h => ⟨_, rfl, h⟩⟩
          · rw [if_neg (mt beq_iff_eq.mp htop)]
            exact iff_of_false nofun fun h => htop h.1

/-- The elements left open are those whose end tags would balance the markup. -/
theorem foldlM_track_eq_ok_iff {ms : List Markup} {left : List (List Char)} :
    ms.foldlM track [] = .ok left ↔ Balanced (ms ++ left.map .closing) := by
  constructor
  · intro h
    refine show Closes [] _ from closes_of_track ?_
    rw [List.foldlM_append]
    exact bind_eq_ok_iff.mpr ⟨left, h, foldlM_track_closing.mpr rfl⟩
  · intro h
    have htrack := h.track []
    rw [List.foldlM_append] at htrack
    obtain ⟨left', hleft, hclosing⟩ := bind_eq_ok_iff.mp htrack
    rw [hleft, foldlM_track_closing.mp hclosing]

/-! ### Documents -/

def Markup.IsReadable : Markup → Prop
  | opening content | single content => ∃ as, attributes content = .ok as
  | closing _ | other => True

theorem addEvent_eq_ok_iff {source : List Char} {b : Builder} {e : Event} :
    (∃ b', addEvent source b e = .ok b') ↔ e.markup.IsReadable := by
  have henter : ∀ content, (∃ b', enterElement source e content b = .ok b') ↔
      ∃ as, attributes content = .ok as := by
    intro content
    rw [enterElement]
    cases attributes content with
    | error e => exact iff_of_false (fun h => nomatch h) nofun
    | ok as => exact iff_of_true ⟨_, rfl⟩ ⟨as, rfl⟩
  rw [addEvent]
  cases e.markup with
  | opening content => exact henter content
  | single content =>
      refine Iff.trans ?_ (henter content)
      dsimp only
      cases enterElement source e content b with
      | error e => exact iff_of_false nofun nofun
      | ok b' => exact iff_of_true ⟨_, rfl⟩ ⟨b', rfl⟩
  | closing name | other => exact iff_of_true ⟨_, rfl⟩ trivial

theorem foldlM_addEvent_eq_ok_iff {source : List Char} {es : List Event} {b : Builder} :
    (∃ b', es.foldlM (addEvent source) b = .ok b') ↔ ∀ m ∈ es.map (·.markup), m.IsReadable := by
  induction es generalizing b with
  | nil => exact iff_of_true ⟨b, rfl⟩ nofun
  | cons e es ih =>
      simp only [List.foldlM_cons, bind_eq_ok_iff, List.map_cons, List.forall_mem_cons]
      constructor
      · rintro ⟨b', b₁, he, hes⟩
        exact ⟨addEvent_eq_ok_iff.mp ⟨b₁, he⟩, ih.mp ⟨b', hes⟩⟩
      · rintro ⟨he, hes⟩
        obtain ⟨b₁, he⟩ := addEvent_eq_ok_iff.mpr he
        obtain ⟨b', hes⟩ := ih.mpr hes
        exact ⟨b', b₁, he, hes⟩

/-- The markup of a source text, without a byte order mark in front. -/
def MarkupOf (source : String) (ms : List Markup) : Prop := Reads (Text.unmarked source.toList) ms

/-- A text is read just if its markup and attributes can be read and some end
tags after it would balance it. -/
theorem toTree_eq_ok_iff {file : Path} {scope : Scope} {source : String} :
    (∃ t, toTree file scope source = .ok t) ↔
      ∃ ms, MarkupOf source ms ∧ (∀ m ∈ ms, m.IsReadable) ∧
        ∃ left : List (List Char), Balanced (ms ++ left.map .closing) := by
  have hevents : ∀ ms, (∃ es, events source = .ok es ∧ es.map (·.markup) = ms) ↔
      MarkupOf source ms ∧ ∃ left, ms.foldlM track [] = .ok left := fun ms =>
    eventsFrom_eq_ok_iff (Nat.lt_succ_self _)
  have hread : (∃ t, toTree file scope source = .ok t) ↔
      ∃ es, events source = .ok es ∧ ∀ m ∈ es.map (·.markup), m.IsReadable := by
    rw [toTree]
    cases events source with
    | error e => exact iff_of_false (by rintro ⟨t, ⟨⟩⟩) (by rintro ⟨es, ⟨⟩, -⟩)
    | ok es =>
        simp only [Except.bind, Except.ok.injEq, exists_eq_left']
        rw [← foldlM_addEvent_eq_ok_iff]
        cases es.foldlM (addEvent source.toList) _ with
        | error e => exact iff_of_false (by rintro ⟨t, ⟨⟩⟩) (by rintro ⟨b, ⟨⟩⟩)
        | ok b => exact iff_of_true ⟨_, rfl⟩ ⟨b, rfl⟩
  simp only [hread, ← foldlM_track_eq_ok_iff]
  constructor
  · rintro ⟨es, hes, hreadable⟩
    obtain ⟨hmarkup, hleft⟩ := (hevents _).mp ⟨es, hes, rfl⟩
    exact ⟨_, hmarkup, hreadable, hleft⟩
  · rintro ⟨ms, hmarkup, hreadable, hleft⟩
    obtain ⟨es, hes, rfl⟩ := (hevents ms).mpr ⟨hmarkup, hleft⟩
    exact ⟨es, hes, hreadable⟩

theorem toTree_eq_error_iff {file : Path} {scope : Scope} {source : String} :
    (∃ text, toTree file scope source = .error (.parse file text)) ↔
      ¬∃ t, toTree file scope source = .ok t := by
  rw [toTree]
  split
  · exact iff_of_false nofun (not_not_intro ⟨_, rfl⟩)
  · exact iff_of_true ⟨_, rfl⟩ nofun

def IsBalanced (source : String) : Prop := ∃ ms, MarkupOf source ms ∧ Balanced ms

/-- A text that can be read, but ends inside an element: only end tags after its
end would balance it. -/
def BreaksOff (source : String) : Prop :=
  ∃ ms, MarkupOf source ms ∧ (∀ m ∈ ms, m.IsReadable) ∧
    ∃ left : List (List Char), left ≠ [] ∧ Balanced (ms ++ left.map .closing)

theorem BreaksOff.not_isBalanced {source : String} (h : BreaksOff source) : ¬IsBalanced source := by
  obtain ⟨ms, hms, -, left, hleft, hbalanced⟩ := h
  rintro ⟨ms', hms', hbalanced'⟩
  obtain rfl := hms.unique hms'
  have hopen := foldlM_track_eq_ok_iff.mpr hbalanced
  rw [hbalanced'.track] at hopen
  exact hleft (Except.ok.inj hopen).symm

/-- A text is balanced or refused, just if it does not break off; one that breaks
off is read as it is. -/
theorem isBalanced_or_toTree_error_iff (file : Path) (scope : Scope) (source : String) :
    ((IsBalanced source ∨ ∃ text, toTree file scope source = .error (.parse file text)) ↔
      ¬BreaksOff source) ∧
    (BreaksOff source → ∃ t, toTree file scope source = .ok t) := by
  have hreads : BreaksOff source → ∃ t, toTree file scope source = .ok t := by
    rintro ⟨ms, hms, hreadable, left, -, hbalanced⟩
    exact toTree_eq_ok_iff.mpr ⟨ms, hms, hreadable, left, hbalanced⟩
  refine ⟨⟨?_, fun hwhole => ?_⟩, hreads⟩
  · rintro (hbalanced | herror) hbreaks
    · exact hbreaks.not_isBalanced hbalanced
    · exact toTree_eq_error_iff.mp herror (hreads hbreaks)
  · rw [toTree_eq_error_iff, or_iff_not_imp_right, not_not]
    intro hread
    obtain ⟨ms, hms, hreadable, left, hbalanced⟩ := toTree_eq_ok_iff.mp hread
    cases left with
    | nil => exact ⟨ms, hms, by simpa using hbalanced⟩
    | cons name names =>
        exact (hwhole ⟨ms, hms, hreadable, _, List.cons_ne_nil name names, hbalanced⟩).elim

def truncatedSource : String := "<a>"

theorem truncatedSource_breaksOff : BreaksOff truncatedSource := by
  refine ⟨[.opening ['a']], .piece rfl (.ended rfl), ?_, [['a']], nofun, ?_⟩
  · exact List.forall_mem_singleton.mpr ⟨[], rfl⟩
  · exact .element ['a'] .nil .nil

/-- A document that breaks off after its first start tag is not balanced, and it is read all
the same. -/
theorem truncatedSource_not_refused :
    ¬(IsBalanced truncatedSource ∨
      ∃ text, toTree ⟨"res/layout/main.xml"⟩ .resourceFile truncatedSource =
        .error (.parse ⟨"res/layout/main.xml"⟩ text)) := by
  rintro (hbalanced | ⟨text, herror⟩)
  · exact truncatedSource_breaksOff.not_isBalanced hbalanced
  · cases herror

end LintEngine.Xml
