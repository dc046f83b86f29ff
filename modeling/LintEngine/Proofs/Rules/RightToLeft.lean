import LintEngine.Proofs.Rules.Effects
import LintEngine.Proofs.Text
import LintEngine.Proofs.Text.Digits

/-!
The messages of findings about left and right.

A finding about an attribute for a side gets its message when the facts of the
project are known. What the message begins and ends with tells which facts
these were: whether the oldest platform knows start and end, and the level that
the project is built for. So the messages of a project can be the same under two
sets of facts only if each finding gets the same message under both.
-/

namespace LintEngine.Rules

/-! ### Final messages -/

def finalMessage (facts : Facts) (f : Finding) : Option String :=
  if facts.supportsRtl then f.data.elim (some f.message) (settledMessage facts f) else none

/-- Whether the oldest platform knows start and end. -/
def isModern (facts : Facts) : Bool := startEndLevel ≤ facts.minSdk.getD 1

def targetLevel (facts : Facts) : Int :=
  (facts.entries.int? Facts.targetSdkKey).getD (facts.minSdk.getD 1)

def redundantMessage (name replacement : String) (target : Int) : String :=
  "Redundant attribute `" ++ name ++ "`; already defining `" ++ replacement ++
    "` with `targetSdkVersion` " ++ toString target

def replacementText (replacement space value : String) : String :=
  space ++ ":" ++ replacement ++ "=\"" ++ value ++ "\"`"

def replacingMessage (name replacement space value : String) : String :=
  "Consider replacing `" ++ space ++ ":" ++ name ++ "` with `" ++
    (replacementText replacement space value) ++ " to better support right-to-left layouts"

def addingMessage (replacement space value : String) : String :=
  "Consider adding `" ++ (replacementText replacement space value) ++
    " to better support right-to-left layouts"

section

variable (facts : Facts) {f : Finding}

theorem finalMessage_gravity (h : f.data = some [(modeKey, .str gravityMode)]) :
    finalMessage facts f = if facts.supportsRtl then some f.message else none := by
  rw [finalMessage, h]
  rfl

theorem finalMessage_redundant {name replacement space value : String}
    (h : f.data = some (sideData redundantMode name replacement space value)) :
    finalMessage facts f =
      if facts.supportsRtl && isModern facts then
        some (redundantMessage name replacement (targetLevel facts))
      else none := by
  rw [finalMessage, h]
  cases facts.supportsRtl with
  | false => rfl
  | true =>
      simp only [isModern, Bool.true_and, decide_eq_true_eq]
      rfl

theorem finalMessage_missing {name replacement space value : String}
    (h : f.data = some (sideData missingMode name replacement space value)) :
    finalMessage facts f =
      if facts.supportsRtl then
        if isModern facts then some (replacingMessage name replacement space value)
        else some (addingMessage replacement space value)
      else none := by
  rw [finalMessage, h]
  cases facts.supportsRtl with
  | false => rfl
  | true =>
      simp only [isModern, decide_eq_true_eq]
      rfl

end

/-! ### What a message begins and ends with -/

/-- Texts that differ within their fixed beginnings. -/
theorem append_ne {a b : String} (n : Nat) (ha : n ≤ a.toList.length) (hb : n ≤ b.toList.length)
    (h : a.toList.take n ≠ b.toList.take n) (r s : String) : a ++ r ≠ b ++ s := by
  intro heq
  have htake := congrArg (fun t => t.toList.take n) heq
  simp only [String.toList_append, List.take_append_of_le_length ha,
    List.take_append_of_le_length hb] at htake
  exact h htake

def BeginsWith (lead message : String) : Prop := ∃ rest, message = lead ++ rest

theorem redundantMessage_begins (name replacement : String) (target : Int) :
    BeginsWith "Redundant attribute `" (redundantMessage name replacement target) := by
  refine ⟨name ++ ("`; already defining `" ++ (replacement ++
    ("` with `targetSdkVersion` " ++ toString target))), ?_⟩
  unfold redundantMessage
  simp only [String.append_assoc]

theorem replacingMessage_begins (name replacement space value : String) :
    BeginsWith "Consider replacing `" (replacingMessage name replacement space value) := by
  refine ⟨space ++ (":" ++ (name ++ ("` with `" ++ (replacementText replacement space value ++
    " to better support right-to-left layouts")))), ?_⟩
  unfold replacingMessage
  simp only [String.append_assoc]

theorem addingMessage_begins (replacement space value : String) :
    BeginsWith "Consider adding `" (addingMessage replacement space value) := by
  refine ⟨replacementText replacement space value ++ " to better support right-to-left layouts", ?_⟩
  unfold addingMessage
  simp only [String.append_assoc]

/-- The last word of a message about a redundant attribute is a level. -/
theorem lastField_redundantMessage (name replacement : String) (target : Int) :
    Text.lastField ' ' (redundantMessage name replacement target) = toString target := by
  rw [← Text.lastField_append ("Redundant attribute `" ++ name ++ "`; already defining `" ++
    replacement ++ "` with `targetSdkVersion`") (Text.space_not_mem_toString target)]
  refine congrArg (Text.lastField ' ') ?_
  unfold redundantMessage
  rw [← String.toList_inj]
  simp

/-! ### Messages under two sets of facts -/

def IsAboutSide (f : Finding) : Prop :=
  ∃ mode name replacement space value, (mode = redundantMode ∨ mode = missingMode) ∧
    f.data = some (sideData mode name replacement space value)

/-- What a message says where the oldest platform knows start and end. -/
def IsNewMessage (message : String) : Prop :=
  BeginsWith "Redundant attribute `" message ∨ BeginsWith "Consider replacing `" message

/-- What a message says where it does not, or about a gravity. -/
def IsOldMessage (message : String) : Prop :=
  BeginsWith "Use \"`" message ∨ BeginsWith "Consider adding `" message

theorem IsNewMessage.not_old {message : String} (h : IsNewMessage message) :
    ¬IsOldMessage message := by
  rintro (⟨s, hs⟩ | ⟨s, hs⟩) <;> rcases h with ⟨r, hr⟩ | ⟨r, hr⟩ <;> rw [hr] at hs
  · exact append_ne 1 (by decide) (by decide) (by decide) r s hs
  · exact append_ne 1 (by decide) (by decide) (by decide) r s hs
  · exact append_ne 1 (by decide) (by decide) (by decide) r s hs
  · exact append_ne 10 (by decide) (by decide) (by decide) r s hs

variable {facts facts' : Facts} {f : Finding}

theorem finalMessage_of_not_supportsRtl (h : facts.supportsRtl = false) (f : Finding) :
    finalMessage facts f = none := by
  rw [finalMessage, h]
  rfl

theorem isNewMessage_of_isModern (hsupports : facts.supportsRtl = true)
    (hmodern : isModern facts = true) (h : IsAboutSide f) :
    ∃ message, finalMessage facts f = some message ∧ IsNewMessage message := by
  obtain ⟨mode, name, replacement, space, value, rfl | rfl, hdata⟩ := h
  · rw [finalMessage_redundant facts hdata, hsupports, hmodern]
    exact ⟨_, rfl, .inl (redundantMessage_begins ..)⟩
  · rw [finalMessage_missing facts hdata, hsupports, hmodern]
    exact ⟨_, rfl, .inr (replacingMessage_begins ..)⟩

theorem isOldMessage_of_not_isModern (hsupports : facts.supportsRtl = true)
    (hmodern : isModern facts = false) (h : IsProvisional f) {message : String}
    (hm : finalMessage facts f = some message) : IsOldMessage message := by
  rcases h.shape with ⟨hdata, hmessage⟩ | ⟨mode, name, replacement, space, value, rfl | rfl, hdata⟩
  · rw [finalMessage_gravity facts hdata, hsupports] at hm
    cases hm
    exact .inl hmessage
  · rw [finalMessage_redundant facts hdata, hsupports, hmodern] at hm
    cases hm
  · rw [finalMessage_missing facts hdata, hsupports, hmodern] at hm
    cases hm
    exact .inr (addingMessage_begins ..)

/-- A message about a redundant attribute tells the level under which it was
made. -/
theorem target_eq_of_finalMessage (hsupports : facts.supportsRtl = true) (h : IsProvisional f)
    {name replacement : String} {target : Int}
    (hm : finalMessage facts f = some (redundantMessage name replacement target)) :
    toString (targetLevel facts) = toString target := by
  have hnew : IsNewMessage (redundantMessage name replacement target) :=
    .inl (redundantMessage_begins ..)
  cases hmodern : isModern facts with
  | false => exact absurd (isOldMessage_of_not_isModern hsupports hmodern h hm) hnew.not_old
  | true =>
      rcases h.shape with ⟨hdata, hmessage⟩ |
        ⟨mode, name', replacement', space, value, rfl | rfl, hdata⟩
      · rw [finalMessage_gravity facts hdata, hsupports] at hm
        exact absurd (.inl (Option.some.inj hm ▸ hmessage)) hnew.not_old
      · rw [finalMessage_redundant facts hdata, hsupports, hmodern] at hm
        -- the level is the last word of the message
        have hlast := congrArg (Text.lastField ' ') (Option.some.inj hm)
        rwa [lastField_redundantMessage, lastField_redundantMessage] at hlast
      · rw [finalMessage_missing facts hdata, hsupports, hmodern] at hm
        obtain ⟨r, hr⟩ := replacingMessage_begins name' replacement' space value
        obtain ⟨s, hs⟩ := redundantMessage_begins name replacement target
        rw [if_pos rfl, if_pos rfl, hr, hs] at hm
        exact absurd (Option.some.inj hm)
          (append_ne 1 (by decide) (by decide) (by decide) r s)

/-- If the same messages arise under two sets of facts, each finding gets the
same message. -/
theorem finalMessage_eq_of_same_messages {fs : List Finding}
    (hsupports : facts.supportsRtl = facts'.supportsRtl) (hfs : ∀ f ∈ fs, IsProvisional f)
    (h : ∀ f ∈ fs, ∀ message, finalMessage facts f = some message →
      ∃ g ∈ fs, finalMessage facts' g = some message)
    (h' : ∀ f ∈ fs, ∀ message, finalMessage facts' f = some message →
      ∃ g ∈ fs, finalMessage facts g = some message) :
    ∀ f ∈ fs, finalMessage facts f = finalMessage facts' f := by
  intro f hf
  cases hs : facts.supportsRtl with
  | false =>
      rw [finalMessage_of_not_supportsRtl hs,
        finalMessage_of_not_supportsRtl (hsupports.symm.trans hs)]
  | true =>
      have hs' : facts'.supportsRtl = true := hsupports.symm.trans hs
      rcases (hfs f hf).shape with ⟨hdata, -⟩ | hside
      · rw [finalMessage_gravity facts hdata, finalMessage_gravity facts' hdata, hsupports]
      · -- one side cannot be modern alone: its message would be missed on the other
        have hmodern : isModern facts = isModern facts' := by
          cases hm : isModern facts <;> cases hm' : isModern facts'
          · rfl
          · obtain ⟨message, hmessage, hnew⟩ := isNewMessage_of_isModern hs' hm' hside
            obtain ⟨g, hg, hgm⟩ := h' f hf message hmessage
            exact absurd (isOldMessage_of_not_isModern hs hm (hfs g hg) hgm) hnew.not_old
          · obtain ⟨message, hmessage, hnew⟩ := isNewMessage_of_isModern hs hm hside
            obtain ⟨g, hg, hgm⟩ := h f hf message hmessage
            exact absurd (isOldMessage_of_not_isModern hs' hm' (hfs g hg) hgm) hnew.not_old
          · rfl
        obtain ⟨mode, name, replacement, space, value, rfl | rfl, hdata⟩ := hside
        · rw [finalMessage_redundant facts hdata, finalMessage_redundant facts' hdata, hs, hs',
            ← hmodern]
          cases hm : isModern facts with
          | false => rfl
          | true =>
              have hmessage : finalMessage facts f =
                  some (redundantMessage name replacement (targetLevel facts)) := by
                rw [finalMessage_redundant facts hdata, hs, hm]
                rfl
              obtain ⟨g, hg, hgm⟩ := h f hf _ hmessage
              have htarget := target_eq_of_finalMessage hs' (hfs g hg) hgm
              unfold redundantMessage
              rw [htarget]
        · rw [finalMessage_missing facts hdata, finalMessage_missing facts' hdata, hs, hs', hmodern]

end LintEngine.Rules
