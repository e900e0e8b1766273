import Iapx86.Json.Value

/-!
# Texts that begin with a brace

A JSON text that begins with an opening brace holds an object, if it holds anything. Once the brace
is read, an object surrounds everything, and it stays the outermost until it is closed
(`ReadsObject`); then it is the value, and nothing may follow.
-/

namespace Iapx86

namespace Json

/-- Whether a context is that of an object. -/
def Context.isObject : Context → Bool
  | array _ => false
  | object _ | member _ _ => true

/-- Whether an object is what is being read, or what has been read, as the outermost value. -/
def ReadsObject (stack : List Context) (expected : Expected) : Prop :=
  match stack.getLast? with
  | some c => c.isObject = true
  | none => ∃ members, expected = .continuation (.object members)

namespace ReadsObject

variable {stack stack' : List Context} {expected expected' : Expected} {token : Token}

theorem cons_iff {c : Context} {stack : List Context} (hne : stack ≠ []) :
    ReadsObject (c :: stack) expected ↔ ReadsObject stack expected' := by
  obtain ⟨d, stack, rfl⟩ := List.exists_cons_of_ne_nil hne
  cases hlast : (d :: stack).getLast? with
  | none => cases List.getLast?_eq_none_iff.mp hlast
  | some c => simp only [ReadsObject, List.getLast?_cons_cons, hlast]

theorem singleton_iff {c : Context} : ReadsObject [c] expected ↔ c.isObject = true := Iff.rfl

/-- What surrounds a place stays the same as long as it is not closed. -/
theorem of_ne_nil (h : ReadsObject stack expected) (hne : stack ≠ []) :
    ReadsObject stack expected' := by
  have hpushed : ReadsObject (.array [] :: stack) expected := (cons_iff hne).mpr h
  exact (cons_iff hne).mp hpushed

theorem replace {c d : Context} (h : ReadsObject (c :: stack) expected)
    (hkind : d.isObject = c.isObject) : ReadsObject (d :: stack) expected' := by
  cases stack with
  | nil => rwa [singleton_iff, hkind]
  | cons e stack =>
      have hne : e :: stack ≠ [] := List.cons_ne_nil e stack
      have hbelow : ReadsObject (e :: stack) expected := (cons_iff hne).mp h
      exact (cons_iff hne).mpr hbelow

theorem close {c : Context} (h : ReadsObject (c :: stack) expected) {v : Value}
    (hv : c.isObject = true → ∃ members, v = .object members) :
    ReadsObject stack (.continuation v) := by
  cases stack with
  | nil =>
      obtain ⟨members, rfl⟩ := hv h
      exact ⟨members, rfl⟩
  | cons d stack => exact (cons_iff (List.cons_ne_nil d stack)).mp h

theorem beginValue (h : ReadsObject stack expected) (hne : stack ≠ [])
    (hstep : Json.beginValue stack token = some (stack', expected')) :
    ReadsObject stack' expected' := by
  unfold Json.beginValue at hstep
  split at hstep
  · cases hstep
    exact (cons_iff hne).mpr h
  · cases hstep
    exact (cons_iff hne).mpr h
  · obtain ⟨v, -, heq⟩ := Option.map_eq_some_iff.mp hstep
    cases heq
    exact h.of_ne_nil hne

theorem beginMember (h : ReadsObject stack expected)
    (hstep : Json.beginMember stack token = some (stack', expected')) :
    ReadsObject stack' expected' := by
  unfold Json.beginMember at hstep
  split at hstep
  · cases hstep
    exact h.replace rfl
  · cases hstep

theorem continueAfter {last : Value} (h : ReadsObject stack expected)
    (hstep : Json.continueAfter last stack token = some (stack', expected')) :
    ReadsObject stack' expected' := by
  unfold Json.continueAfter at hstep
  split at hstep
  · cases hstep
    exact h.replace rfl
  · cases hstep
    exact h.close nofun
  · cases hstep
    exact h.replace rfl
  · cases hstep
    exact h.close fun _ => ⟨_, rfl⟩
  · cases hstep

/-- An object that surrounds everything does so until it is closed, and then nothing follows. -/
theorem advance (h : ReadsObject stack expected)
    (hstep : Json.advance stack expected token = some (stack', expected')) :
    ReadsObject stack' expected' := by
  have hne (hexpected : ∀ v, expected ≠ .continuation v) : stack ≠ [] := by
    rintro rfl
    obtain ⟨members, heq⟩ := h
    exact hexpected _ heq
  unfold Json.advance at hstep
  split at hstep
  · exact h.beginValue (hne nofun) hstep
  · cases hstep
    exact h.close nofun
  · exact h.beginValue (hne nofun) hstep
  · exact h.beginMember hstep
  · cases hstep
    exact h.close fun _ => ⟨[], rfl⟩
  · exact h.beginMember hstep
  · cases hstep
    exact h.of_ne_nil (hne nofun)
  · cases hstep
  · exact h.continueAfter hstep

theorem exists_eq_object {tokens : List Token} {v : Value} (h : ReadsObject stack expected)
    (hv : valueFrom? stack expected tokens = some v) : ∃ members, v = .object members := by
  induction tokens generalizing stack expected with
  | nil =>
      unfold valueFrom? at hv
      split at hv
      · obtain ⟨members, heq⟩ := h
        cases heq
        cases hv
        exact ⟨members, rfl⟩
      · cases hv
  | cons token tokens ih =>
      obtain ⟨⟨stack', expected'⟩, hstep, hrest⟩ := Option.bind_eq_some_iff.mp hv
      exact ih (h.advance hstep) hrest

end ReadsObject

/-- The tokens of a text begin with those that have been read. -/
theorem Scan.prefix_of_tokens? {scan : Scan} {read tokens : List Token} {cs : List Char}
    (h : scan.tokens? read cs = some tokens) : read.reverse <+: tokens := by
  induction cs generalizing scan read with
  | nil =>
      obtain ⟨ended, -, rfl⟩ := Option.map_eq_some_iff.mp h
      exact List.prefix_append _ _
  | cons c cs ih =>
      obtain ⟨⟨ended, scan'⟩, -, hrest⟩ := Option.bind_eq_some_iff.mp h
      refine List.IsPrefix.trans ?_ (ih hrest)
      rw [List.reverse_append]
      exact List.prefix_append _ _

theorem exists_eq_object_of_brace {text : String} {cs : List Char} {v : Value}
    (htext : text.toList = '\x7b' :: cs) (h : Value.ofText? text = some v) :
    ∃ members, v = .object members := by
  obtain ⟨tokens, htokens, hv⟩ := Option.bind_eq_some_iff.mp h
  rw [htext, tokens?, Scan.tokens?] at htokens
  obtain ⟨⟨ended, scan⟩, hnext, htokens⟩ := Option.bind_eq_some_iff.mp htokens
  cases hnext
  obtain ⟨rest, rfl⟩ := Scan.prefix_of_tokens? htokens
  have hreads : ReadsObject [.object []] .keyOrEnd := rfl
  exact hreads.exists_eq_object hv

end Json

end Iapx86
