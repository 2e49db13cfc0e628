/-
  The members that are looked at in an entry.

  The readers of `replay/load.rs` do not deny unknown fields, so an entry may
  have other members, at any level.

  * `entryShape`: what is looked at in an entry.
  * `decodeLine_agree`: a line is read as another one if their values agree on it.
-/
import Eventline.Wire.Entry
import Eventline.Lib.Shape

namespace Eventline

open Text Checked Json

/-! ## Shapes -/

def exitMessagesShape : Shape :=
  .members [("success", .whole), ("failure", .whole), ("aborted", .whole)]

def scopeShape : Shape :=
  .members [("id", .whole), ("parent", .whole), ("entered_at", .whole), ("name", .whole),
    ("exited_at", .whole), ("exit_messages", exitMessagesShape)]

def valueShape : Shape := .members [("type", .whole), ("value", .whole)]

/-- The members of an entry of any type. -/
def entryShape : Shape :=
  .members [("format_version", .whole), ("run_id", .whole), ("type", .whole), ("id", .whole),
    ("time_ns", .whole), ("scope_id", .whole), ("scope", scopeShape), ("level", .whole),
    ("message", .whole), ("fields", .each valueShape), ("outcome", .whole),
    ("duration_ns", .whole)]

/-! ## Readers of optional members -/

section
variable {α : Type} {s : Shape} {decode : Json → Option α} {a b : Option Json}

theorem optionField_agree (h : ∀ v w, Agree s v w → decode v = decode w)
    (hab : Option.Rel (Agree s) a b) : optionField decode a = optionField decode b := by
  cases hab with
  | none => rfl
  | some hvw =>
    rename_i v w
    by_cases hnull : v = .null
    · rw [hvw.null_iff.1 hnull, hnull]
    · have hnull' : w ≠ .null := fun hw => hnull (hvw.null_iff.2 hw)
      have hread : ∀ x : Json, x ≠ .null → optionField decode (some x) = some <$> decode x := by
        intro x hx
        cases x <;> first | rfl | exact absurd rfl hx
      rw [hread v hnull, hread w hnull', h v w hvw]

theorem defaultField_agree (default : α) (h : ∀ v w, Agree s v w → decode v = decode w)
    (hab : Option.Rel (Agree s) a b) :
    defaultField default decode a = defaultField default decode b := by
  cases hab with
  | none => rfl
  | some hvw => exact h _ _ hvw

end

/-! ## Readers of objects -/

/-- Values of an object's shape are one, or two objects. -/
theorem agree_cases {known : List (String × Shape)} {v w : Json} (h : Agree (.members known) v w) :
    v = w ∨ ∃ ms ns, v = .obj ms ∧ w = .obj ns := by
  cases h with
  | refl => exact .inl rfl
  | members => exact .inr ⟨_, _, rfl, rfl⟩

theorem decodeExitMessages_agree (v w : Json) (h : Agree exitMessagesShape v w) :
    decodeExitMessages v = decodeExitMessages w := by
  have hsuccess := h.get_eq (k := "success") (by simp)
  have hfailure := h.get_eq (k := "failure") (by simp)
  have haborted := h.get_eq (k := "aborted") (by simp)
  rcases agree_cases h with rfl | ⟨ms, ns, rfl, rfl⟩
  · rfl
  · simp only [decodeExitMessages, structFields, Option.bind_eq_bind, Option.bind_some, hsuccess,
      hfailure, haborted]

theorem decodeScope_agree (v w : Json) (h : Agree scopeShape v w) : decodeScope v = decodeScope w := by
  have hid := h.get_eq (k := "id") (by simp)
  have hparent := h.get_eq (k := "parent") (by simp)
  have hentered := h.get_eq (k := "entered_at") (by simp)
  have hname := h.get_eq (k := "name") (by simp)
  have hexited := h.get_eq (k := "exited_at") (by simp)
  have hmessages := defaultField_agree ExitMessages.none decodeExitMessages_agree
    (h.get (k := "exit_messages") (t := exitMessagesShape) (by simp))
  rcases agree_cases h with rfl | ⟨ms, ns, rfl, rfl⟩
  · rfl
  · simp only [decodeScope, structFields, Option.bind_eq_bind, Option.bind_some, hid, hparent,
      hentered, hname, hexited, hmessages]

theorem decodeFieldValue_agree (v w : Json) (h : Agree valueShape v w) :
    decodeFieldValue v = decodeFieldValue w := by
  have htype := h.get_eq (k := "type") (by simp)
  have hvalue := h.get_eq (k := "value") (by simp)
  rcases agree_cases h with rfl | ⟨ms, ns, rfl, rfl⟩
  · rfl
  · simp only [decodeFieldValue, specialFloat, decodeValue, htype, hvalue]

theorem mapM_decodeField_agree {v w : Json} (h : Agree (.each valueShape) v w) :
    ∀ ms ns, v = .obj ms → w = .obj ns → ms.mapM decodeField = ns.mapM decodeField := by
  generalize ht : Shape.each valueShape = t at h
  induction h with
  | refl s v =>
    rintro ms ns rfl hns
    rw [Json.obj.inj hns]
  | members => cases ht
  | each hvw _ _ ih =>
    rintro ms ns hms hns
    obtain rfl := Json.obj.inj hms
    obtain rfl := Json.obj.inj hns
    obtain rfl := Shape.each.inj ht
    rw [List.mapM_cons, List.mapM_cons, ih ht _ _ rfl rfl, decodeField, decodeField,
      decodeFieldValue_agree _ _ hvw]

theorem decodeFields_agree (v w : Json) (h : Agree (.each valueShape) v w) :
    decodeFields v = decodeFields w := by
  have hmembers := mapM_decodeField_agree h
  cases h with
  | refl => rfl
  | each => rw [decodeFields, decodeFields, hmembers _ _ rfl rfl]

/-! ## Entries -/

theorem decodeTagged_eq (tag : String) (content : Json) : decodeTagged (tag, content) =
    if tag = "scope" then decodeScopeEntry content
    else if tag = "event" then decodeEventEntry content
    else if tag = "scope_exit" then decodeScopeExitEntry content
    else none := by
  unfold decodeTagged
  split <;> simp_all

section
variable {ms ns : List (String × Json)} (h : Agree entryShape (.obj ms) (.obj ns))
include h

theorem decodeScopeEntry_agree : decodeScopeEntry (.obj ms) = decodeScopeEntry (.obj ns) := by
  have hscope := bind_agree decodeScope_agree
    (h.get (k := "scope") (t := scopeShape) (by simp))
  simp only [decodeScopeEntry, structFields, Option.bind_eq_bind, Option.bind_some, hscope]

theorem decodeEventEntry_agree : decodeEventEntry (.obj ms) = decodeEventEntry (.obj ns) := by
  have hid := h.get_eq (k := "id") (by simp)
  have htime := h.get_eq (k := "time_ns") (by simp)
  have hscopeId := h.get_eq (k := "scope_id") (by simp)
  have hscope := optionField_agree decodeScope_agree
    (h.get (k := "scope") (t := scopeShape) (by simp))
  have hlevel := h.get_eq (k := "level") (by simp)
  have hmessage := h.get_eq (k := "message") (by simp)
  have hfields := defaultField_agree Fields.new decodeFields_agree
    (h.get (k := "fields") (t := .each valueShape) (by simp))
  simp only [decodeEventEntry, structFields, Option.bind_eq_bind, Option.bind_some, hid, htime,
    hscopeId, hscope, hlevel, hmessage, hfields]

theorem decodeScopeExitEntry_agree :
    decodeScopeExitEntry (.obj ms) = decodeScopeExitEntry (.obj ns) := by
  have hid := h.get_eq (k := "id") (by simp)
  have htime := h.get_eq (k := "time_ns") (by simp)
  have hscopeId := h.get_eq (k := "scope_id") (by simp)
  have hscope := optionField_agree decodeScope_agree
    (h.get (k := "scope") (t := scopeShape) (by simp))
  have houtcome := h.get_eq (k := "outcome") (by simp)
  have hduration := h.get_eq (k := "duration_ns") (by simp)
  simp only [decodeScopeExitEntry, structFields, Option.bind_eq_bind, Option.bind_some, hid, htime,
    hscopeId, hscope, houtcome, hduration]

end

/-- **Other members of an entry** are not looked at. -/
theorem decodeEntry_agree {v w : Json} (h : Agree entryShape v w) : decodeEntry v = decodeEntry w := by
  have htype := h.get_eq (k := "type") (by simp)
  rcases agree_cases h with rfl | ⟨ms, ns, rfl, rfl⟩
  · rfl
  · rw [decodeEntry, decodeEntry, taggedContent, taggedContent, htype]
    cases (Json.get "type" (.obj ns)).bind asStr with
    | none => rfl
    | some tag =>
      show decodeTagged (tag, .obj ms) = decodeTagged (tag, .obj ns)
      rw [decodeTagged_eq, decodeTagged_eq, decodeScopeEntry_agree h, decodeEventEntry_agree h,
        decodeScopeExitEntry_agree h]

/-- **A line of other members** is read as the line without them. -/
theorem decodeLine_agree {serde : SerdeJson} {line line' : Bytes} {v w : Json} {d : DecodedLine}
    (hv : serde.fromSlice line = .ok v) (hw : serde.fromSlice line' = .ok w)
    (h : Agree entryShape v w) (hd : decodeLine serde line = .ok d) :
    decodeLine serde line' = .ok d := by
  have hversion : formatVersion w = formatVersion v := by
    rw [formatVersion, formatVersion, h.get_eq (k := "format_version") (by simp)]
  have hrun : ∀ version, entryRunId w version = entryRunId v version := by
    intro version
    rw [entryRunId, entryRunId, h.get_eq (k := "run_id") (by simp)]
  rw [decodeLine, hv] at hd
  obtain ⟨v', hv', hd⟩ := bind_eq_ok.1 hd
  obtain rfl : v = v' := Except.ok.inj hv'
  obtain ⟨version, hversion', hd⟩ := bind_eq_ok.1 hd
  obtain ⟨supported, hsupported, hd⟩ := bind_eq_ok.1 hd
  obtain ⟨runId, hrun', hd⟩ := bind_eq_ok.1 hd
  obtain ⟨parts, hparts, hd⟩ := bind_eq_ok.1 hd
  have hparts' : invalidLine (decodeParts serde w) = .ok parts := by
    unfold decodeParts at hparts ⊢
    rw [← decodeEntry_agree h]
    cases hentry : decodeEntry v with
    | none =>
      -- a line that is accepted is an entry
      rw [hentry] at hparts
      cases hparts
    | some entry =>
      rw [hentry] at hparts
      exact hparts
  rw [decodeLine, hw]
  simp only [invalidLine, ok_bind, hversion, hversion', hsupported, hrun, hrun']
  exact bind_eq_ok.2 ⟨parts, hparts', hd⟩

end Eventline
