import LintEngine.Proofs.Text
import LintEngine.Symbols.TypeName

/-!
Types as they are written, and the names that are left of them.

`strip` takes the last word of a type, cuts it at its first bracket, and drops the markers
of arrays and of variable arguments from its end. What is left has nothing more to drop,
so stripping twice is stripping once. But the last word of a type may be in its type
arguments, and then a part of them is taken for the type. The main statement says of which
types the name is found.
-/

namespace LintEngine

namespace TypeName

/-! ### Markers -/

inductive Marker
  | array
  | varargs

def Marker.text : Marker → List Char
  | array => ['[', ']']
  | varargs => ['.', '.', '.']

variable {cs w : List Char} {name : String}

theorem Marker.plain (ms : List Marker) :
    ∀ c ∈ ms.flatMap Marker.text, Text.isBlank c = false ∧ c ≠ '<' ∧ c ≠ '>' := by
  intro c hc
  obtain ⟨m, -, hc⟩ := List.mem_flatMap.mp hc
  have hplain : (m.text.all fun c => !Text.isBlank c && c != '<' && c != '>') = true := by
    cases m <;> decide
  simpa [and_assoc] using List.all_eq_true.mp hplain c hc

theorem Marker.not_blank (ms : List Marker) :
    ∀ c ∈ ms.flatMap Marker.text, Text.isBlank c = false := fun c hc => (plain ms c hc).1

theorem dropMarkers_append (ms : List Marker) (cs : List Char) :
    dropMarkers (cs ++ ms.flatMap Marker.text).reverse = dropMarkers cs.reverse := by
  induction ms generalizing cs with
  | nil => rw [List.flatMap_nil, List.append_nil]
  | cons m ms ih =>
      rw [List.flatMap_cons, ← List.append_assoc, ih, List.reverse_append]
      cases m <;> simp [Marker.text, dropMarkers]

/-- Only markers are dropped. -/
theorem exists_markers (cs : List Char) :
    ∃ ms : List Marker, cs.reverse = (dropMarkers cs).reverse ++ ms.flatMap Marker.text := by
  fun_induction dropMarkers cs with
  | case1 cs ih =>
      obtain ⟨ms, hms⟩ := ih
      exact ⟨ms ++ [.array], by simp [hms, Marker.text]⟩
  | case2 cs ih =>
      obtain ⟨ms, hms⟩ := ih
      exact ⟨ms ++ [.varargs], by simp [hms, Marker.text]⟩
  | case3 cs => exact ⟨[], by simp⟩

theorem dropMarkers_dropMarkers (cs : List Char) :
    dropMarkers (dropMarkers cs) = dropMarkers cs := by
  fun_induction dropMarkers cs with
  | case1 cs ih => exact ih
  | case2 cs ih => exact ih
  | case3 cs harray hvarargs =>
      rw [dropMarkers]
      · exact harray
      · exact hvarargs

/-! ### The name in a word -/

def bare (w : List Char) : List Char := (dropMarkers (w.takeWhile (· != '<')).reverse).reverse

theorem strip_eq (written : String) :
    strip written = String.ofList (bare ((Text.words written).getLastD "").toList) := rfl

theorem exists_markers_bare (w : List Char) :
    ∃ ms : List Marker, w.takeWhile (· != '<') = bare w ++ ms.flatMap Marker.text := by
  obtain ⟨ms, hms⟩ := exists_markers (w.takeWhile (· != '<')).reverse
  exact ⟨ms, by rwa [List.reverse_reverse] at hms⟩

theorem mem_takeWhile_of_mem_bare {c : Char} (h : c ∈ bare w) : c ∈ w.takeWhile (· != '<') := by
  obtain ⟨ms, hms⟩ := exists_markers_bare w
  rw [hms]
  exact List.mem_append_left _ h

/-- A name goes through `strip` unchanged if nothing is to be dropped from it. -/
theorem bare_eq_self (hcut : '<' ∉ w) (hmarkers : dropMarkers w.reverse = w.reverse) :
    bare w = w := by
  rw [bare, Text.takeWhile_of_not_mem hcut, hmarkers, List.reverse_reverse]

theorem bare_bare (w : List Char) : bare (bare w) = bare w := by
  have hcut : '<' ∉ bare w := fun h =>
    bne_iff_ne.mp (List.mem_takeWhile_imp (p := (· != '<')) (mem_takeWhile_of_mem_bare h)) rfl
  refine bare_eq_self hcut ?_
  rw [bare, List.reverse_reverse, dropMarkers_dropMarkers]

/-- The name in a word stands at its front, with markers behind it, up to the end or to
a bracket. -/
theorem bare_eq_iff {name : List Char} (hcut : '<' ∉ name)
    (hmarkers : dropMarkers name.reverse = name.reverse) :
    bare w = name ↔ ∃ (ms : List Marker) (rest : List Char),
      w = name ++ ms.flatMap Marker.text ++ rest ∧ ∀ c ∈ rest.head?, c = '<' := by
  constructor
  · rintro rfl
    obtain ⟨ms, hms⟩ := exists_markers_bare w
    refine ⟨ms, w.dropWhile (· != '<'), ?_, fun c hc => ?_⟩
    · rw [← hms, List.takeWhile_append_dropWhile]
    · have hhead := List.head?_dropWhile_not (· != '<') w
      rw [Option.mem_def.mp hc] at hhead
      simpa using hhead
  · rintro ⟨ms, rest, rfl, hrest⟩
    have hplain : ∀ c ∈ name ++ ms.flatMap Marker.text, (c != '<') = true := by
      simp only [bne_iff_ne, List.forall_mem_append]
      exact ⟨fun c hc => ne_of_mem_of_not_mem hc hcut, fun c hc => (Marker.plain ms c hc).2.1⟩
    have hhead : ∀ c ∈ rest.head?, (c != '<') = false := by simpa using hrest
    rw [bare, Text.takeWhile_append_of_head hplain hhead, dropMarkers_append, hmarkers,
      List.reverse_reverse]

/-- Stripping a text is cutting its last word. -/
theorem strip_append {front : List Char} (hfront : ∀ c ∈ front.getLast?, Text.isBlank c = true)
    (hne : w ≠ []) (h : ∀ c ∈ w, Text.isBlank c = false) :
    strip (String.ofList (front ++ w)) = String.ofList (bare w) := by
  rw [strip_eq, Text.getLastD_words hfront hne h, String.toList_ofList]

theorem strip_ofList_bare (h : ∀ c ∈ bare w, Text.isBlank c = false) :
    strip (String.ofList (bare w)) = String.ofList (bare w) := by
  by_cases hne : bare w = []
  · rw [hne]
    rfl
  · rw [← List.nil_append (bare w), strip_append (by simp) hne h, bare_bare]
    rfl

theorem strip_strip (written : String) : strip (strip written) = strip written := by
  rw [strip_eq written]
  refine strip_ofList_bare fun c hc => ?_
  have hmem := (List.takeWhile_sublist _).subset (mem_takeWhile_of_mem_bare hc)
  cases hlast : (Text.words written).getLast? with
  | none =>
      rw [List.getLastD_eq_getLast?, hlast] at hmem
      cases hmem
  | some word =>
      rw [List.getLastD_eq_getLast?, hlast] at hmem
      exact Text.not_blank_of_mem_words (List.mem_of_getLast? hlast) c hmem

/-! ### Dotted names -/

/-- A part of a name: not empty, and without white space, points and brackets. -/
def isSegment (segment : String) : Bool :=
  segment != "" && segment.toList.all fun c =>
    !(Text.isBlank c || ['.', '<', '[', ']'].contains c)

def isDotted (name : String) : Bool := (Text.split '.' name).all isSegment

theorem dropMarkers_of_head {c : Char} {cs : List Char} (hbracket : c ≠ ']') (hpoint : c ≠ '.') :
    dropMarkers (c :: cs) = c :: cs := by
  rw [dropMarkers]
  · rintro _ ⟨⟩
    exact hbracket rfl
  · rintro _ ⟨⟩
    exact hpoint rfl

theorem segments_of_isDotted {name : String} (h : isDotted name = true) :
    ∀ w ∈ Text.splitChars (· == '.') name.toList, w ≠ [] ∧
      ∀ c ∈ w, Text.isBlank c = false ∧ c ≠ '<' ∧ c ≠ ']' := by
  intro w hw
  have hw := List.all_eq_true.mp h _ (List.mem_map_of_mem hw)
  rw [isSegment, Bool.and_eq_true, String.toList_ofList, List.all_eq_true] at hw
  refine ⟨?_, fun c hc => ?_⟩
  · rintro rfl
    simp at hw
  · have hc := hw.2 c hc
    simp only [Bool.not_eq_true', List.contains_cons, Bool.or_eq_false_iff,
      beq_eq_false_iff_ne] at hc
    exact ⟨hc.1, hc.2.2.1, hc.2.2.2.2.1⟩

theorem chars_of_isDotted {name : String} (h : isDotted name = true) :
    ∀ c ∈ name.toList, Text.isBlank c = false ∧ c ≠ '<' ∧ c ≠ ']' := by
  intro c hc
  rcases Text.mem_splitChars (p := (· == '.')) hc with hpoint | ⟨w, hw, hc⟩
  · rw [beq_iff_eq.mp hpoint]
    decide
  · exact (segments_of_isDotted h w hw).2 c hc

theorem ne_nil_of_isDotted (h : isDotted name = true) : name.toList ≠ [] := by
  intro hnil
  have hsegment := segments_of_isDotted h
  rw [hnil] at hsegment
  exact (hsegment [] List.mem_cons_self).1 rfl

theorem not_blank_of_isDotted (h : isDotted name = true) :
    ∀ c ∈ name.toList, Text.isBlank c = false := fun c hc => (chars_of_isDotted h c hc).1

theorem not_mem_of_isDotted (h : isDotted name = true) : '<' ∉ name.toList :=
  fun hmem => (chars_of_isDotted h _ hmem).2.1 rfl

theorem dropMarkers_of_isDotted (h : isDotted name = true) :
    dropMarkers name.toList.reverse = name.toList.reverse := by
  obtain ⟨front, c, hname⟩ :=
    (List.eq_nil_or_concat' name.toList).resolve_left (ne_nil_of_isDotted h)
  have hlast : name.toList.getLast? = some c := by rw [hname, List.getLast?_concat]
  have hpoint : c ≠ '.' := beq_eq_false_iff_ne.mp <|
    Text.not_separator_of_getLast? (p := (· == '.'))
      (fun w hw => (segments_of_isDotted h w (List.mem_of_mem_tail hw)).1) hlast
  have hbracket : c ≠ ']' := (chars_of_isDotted h c (List.mem_of_getLast? hlast)).2.2
  rw [hname, List.reverse_append, List.reverse_singleton, List.singleton_append,
    dropMarkers_of_head hbracket hpoint]

theorem strip_of_isDotted {name : String} (h : isDotted name = true) : strip name = name := by
  have hbare := bare_eq_self (not_mem_of_isDotted h) (dropMarkers_of_isDotted h)
  have hblank : ∀ c ∈ bare name.toList, Text.isBlank c = false := by
    rw [hbare]
    exact not_blank_of_isDotted h
  have hstrip := strip_ofList_bare hblank
  rwa [hbare, String.ofList_toList] at hstrip

/-! ### Written types -/

structure Annotated where
  content : List Char
  gap : List Char
  gap_ne_nil : gap ≠ []
  gap_blank : ∀ c ∈ gap, Text.isBlank c = true

def Annotated.text (a : Annotated) : List Char := '@' :: a.content ++ a.gap

theorem Annotated.getLast_blank (as : List Annotated) :
    ∀ c ∈ (as.flatMap Annotated.text).getLast?, Text.isBlank c = true := by
  rcases List.eq_nil_or_concat' as with rfl | ⟨as, a, rfl⟩
  · simp
  · intro c hc
    rw [List.flatMap_append, List.flatMap_singleton, Annotated.text, ← List.append_assoc,
      List.getLast?_append_of_ne_nil _ a.gap_ne_nil] at hc
    exact a.gap_blank c (List.mem_of_getLast? hc)

def bracketed : Option (List Char) → List Char
  | none => []
  | some arguments => '<' :: arguments ++ ['>']

/-- A type as it is written: annotations, a dotted name, type arguments between brackets
and markers. The arguments are any text, as `strip` does not ask if their brackets are
balanced. -/
structure Written where
  annotations : List Annotated
  name : String
  arguments : Option (List Char)
  markers : List Marker
  dotted : isDotted name = true
  plain : '>' ∉ name.toList

namespace Written

variable (t : Written)

def body : List Char :=
  t.name.toList ++ bracketed t.arguments ++ t.markers.flatMap Marker.text

def text : String := String.ofList (t.annotations.flatMap Annotated.text ++ t.body)

theorem body_ne_nil : t.body ≠ [] := by
  simp [body, ne_nil_of_isDotted t.dotted]

/-- Behind the last white space of the arguments the name stands again, and a bracket
behind it, as in `Map<K, Map<V>>`. -/
def EndsInItself (arguments : List Char) : Prop :=
  ∃ (front : List Char) (gap : Char) (ms : List Marker) (rest : List Char),
    arguments = front ++ gap :: (t.name.toList ++ ms.flatMap Marker.text ++ '<' :: rest) ∧
      Text.isBlank gap = true ∧ ∀ c ∈ rest, Text.isBlank c = false

/-- The brackets of the arguments are where a name is cut. -/
theorem bare_eq_name_iff (w : List Char) :
    bare w = t.name.toList ↔ ∃ (ms : List Marker) (rest : List Char),
      w = t.name.toList ++ ms.flatMap Marker.text ++ rest ∧ ∀ c ∈ rest.head?, c = '<' :=
  bare_eq_iff (not_mem_of_isDotted t.dotted) (dropMarkers_of_isDotted t.dotted)

/-- Without white space in its arguments a type is one word, which begins with the name. -/
theorem strip_text_of_plain
    (h : ∀ arguments ∈ t.arguments, ∀ c ∈ arguments, Text.isBlank c = false) :
    strip t.text = t.name := by
  have hplain : ∀ c ∈ t.body, Text.isBlank c = false := by
    rw [body, List.forall_mem_append, List.forall_mem_append]
    refine ⟨⟨not_blank_of_isDotted t.dotted, ?_⟩, Marker.not_blank t.markers⟩
    cases harguments : t.arguments with
    | none => simp [bracketed]
    | some arguments =>
        rw [bracketed, List.cons_append, List.forall_mem_cons, List.forall_mem_append,
          List.forall_mem_singleton]
        exact ⟨by decide, h arguments harguments, by decide⟩
  have hbare : bare t.body = t.name.toList := by
    rw [bare_eq_name_iff]
    cases harguments : t.arguments with
    | none => exact ⟨t.markers, [], by simp [body, harguments, bracketed], by simp⟩
    | some arguments =>
        exact ⟨[], '<' :: (arguments ++ '>' :: t.markers.flatMap Marker.text),
          by simp [body, harguments, bracketed], by simp⟩
  rw [text, strip_append (Annotated.getLast_blank _) t.body_ne_nil hplain, hbare,
    String.ofList_toList]

/-- With white space in them, the text behind the last of it is what is cut. -/
theorem strip_text_of_gap {front w : List Char} {gap : Char}
    (h : t.arguments = some (front ++ gap :: w)) (hgap : Text.isBlank gap = true)
    (hw : ∀ c ∈ w, Text.isBlank c = false) :
    strip t.text = String.ofList (bare (w ++ '>' :: t.markers.flatMap Marker.text)) := by
  have hplain : ∀ c ∈ w ++ '>' :: t.markers.flatMap Marker.text, Text.isBlank c = false := by
    rw [List.forall_mem_append, List.forall_mem_cons]
    exact ⟨hw, by decide, Marker.not_blank t.markers⟩
  have htext : t.annotations.flatMap Annotated.text ++ t.body =
      t.annotations.flatMap Annotated.text ++ t.name.toList ++ '<' :: front ++ [gap] ++
        (w ++ '>' :: t.markers.flatMap Marker.text) := by
    simp [body, h, bracketed]
  rw [text, htext, strip_append ?_ (by simp) hplain]
  rw [List.getLast?_concat]
  rintro _ ⟨⟩
  exact hgap

/-- The bracket that closes the arguments is in no name, so a name that is found behind
the last white space was cut at another bracket before it. -/
theorem bare_eq_name_iff_of_closed (w rest : List Char) :
    bare (w ++ '>' :: rest) = t.name.toList ↔ ∃ (ms : List Marker) (inner : List Char),
      w = t.name.toList ++ ms.flatMap Marker.text ++ '<' :: inner := by
  rw [bare_eq_name_iff]
  constructor
  · rintro ⟨ms, later, hw, hlater⟩
    have hname : '>' ∉ t.name.toList ++ ms.flatMap Marker.text := by
      intro hmem
      rcases List.mem_append.mp hmem with hmem | hmem
      · exact t.plain hmem
      · exact (Marker.plain ms _ hmem).2.2 rfl
    have hclosing : later ≠ '>' :: rest := by
      rintro rfl
      exact absurd (hlater '>' rfl) (by decide)
    rcases List.append_eq_append_iff.mp hw with ⟨back, hfront, hback⟩ | ⟨inner, hinner, rfl⟩
    · cases back with
      | nil => exact absurd hback.symm hclosing
      | cons c back =>
          obtain ⟨rfl, -⟩ := List.cons.inj hback
          exact absurd (hfront ▸ List.mem_append_right _ List.mem_cons_self) hname
    · cases inner with
      | nil => exact absurd rfl hclosing
      | cons c inner =>
          obtain rfl := hlater c rfl
          exact ⟨ms, inner, hinner⟩
  · rintro ⟨ms, inner, rfl⟩
    exact ⟨ms, '<' :: (inner ++ '>' :: rest), by simp, by simp⟩

end Written

/-- The name of a written type is found just if there is no white space in its arguments
or it stands again behind the last of it; and nothing is left to strip from what was
stripped. -/
theorem strip_finds_name_iff_and_idempotent (t : Written) (s : String) :
    (strip t.text = t.name ↔ ∀ arguments ∈ t.arguments,
      (∀ c ∈ arguments, Text.isBlank c = false) ∨ t.EndsInItself arguments) ∧
    strip (strip s) = strip s := by
  refine ⟨⟨fun hstrip arguments harguments => ?_, fun h => ?_⟩, strip_strip s⟩
  · by_cases hblank : ∃ c ∈ arguments, Text.isBlank c = true
    · obtain ⟨front, gap, w, rfl, hgap, hw⟩ := Text.exists_last_blank hblank
      rw [t.strip_text_of_gap harguments hgap hw, ← String.toList_inj, String.toList_ofList,
        t.bare_eq_name_iff_of_closed] at hstrip
      obtain ⟨ms, inner, rfl⟩ := hstrip
      exact .inr ⟨front, gap, ms, inner, rfl, hgap, fun c hc => hw c (by simp [hc])⟩
    · exact .inl (by simpa using hblank)
  · cases harguments : t.arguments with
    | none => exact t.strip_text_of_plain (by simp [harguments])
    | some arguments =>
        rcases h arguments harguments with hplain | ⟨front, gap, ms, inner, rfl, hgap, hinner⟩
        · exact t.strip_text_of_plain (by simpa [harguments] using hplain)
        · have hw : ∀ c ∈ t.name.toList ++ ms.flatMap Marker.text ++ '<' :: inner,
              Text.isBlank c = false := by
            rw [List.forall_mem_append, List.forall_mem_append, List.forall_mem_cons]
            exact ⟨⟨not_blank_of_isDotted t.dotted, Marker.not_blank ms⟩, by decide, hinner⟩
          rw [t.strip_text_of_gap harguments hgap hw,
            (t.bare_eq_name_iff_of_closed _ _).mpr ⟨ms, inner, rfl⟩, String.ofList_toList]

def mapType : Written where
  annotations := []
  name := "Map"
  arguments := some "String, Integer".toList
  markers := []
  dotted := by decide
  plain := by decide

/-- Of two type arguments with white space between them the second is taken for the type. -/
theorem strip_mapType :
    mapType.text = "Map<String, Integer>" ∧ strip mapType.text = "Integer>" ∧
      strip mapType.text ≠ mapType.name := by
  decide

end TypeName

end LintEngine
