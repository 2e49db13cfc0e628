/-
  An instance of `SerdeJson`: compact texts, and hash maps in key order.

  It shows that `SerdeJson.Lawful` can be met, with every double read back
  exactly.  On texts without doubles it prints and reads as `serde_json` does.
-/
import Eventline.Wire.Render
import Eventline.Lib.JsonText

namespace Eventline

open Text

def compactSerde : SerdeJson where
  toVec v := .ok (utf8 (.ofList (JsonText.text v)))
  fromSlice bytes :=
    match fromUtf8 bytes with
    | none => .error "invalid unicode code point at line 1 column 1"
    | some s =>
      match JsonText.value s.toList.length s.toList with
      | some (v, []) => .ok v
      | _ => .error "expected value at line 1 column 1"
  entryError _ := "missing field"
  hashOrder entries := entries
  reread x := x

theorem fromSlice_text (v : Json) :
    compactSerde.fromSlice (utf8 (.ofList (JsonText.text v))) = .ok v.canonical := by
  have hv := JsonText.value_text v (JsonText.text v).length [] le_rfl (fun c hc => by cases hc)
  rw [List.append_nil] at hv
  simp [compactSerde, hv]

/-- An ASCII character alone is its own byte. -/
theorem utf8_head (cs : List Char) : (utf8 (.ofList ('\x7b' :: cs))).head? = some 123 := by
  rw [utf8_ofList]
  rfl

theorem utf8_last {cs : List Char} (h : cs.getLast? = some '\x7d') :
    (utf8 (.ofList cs)).getLast? = some 125 := by
  obtain ⟨pre, rfl⟩ := List.getLast?_eq_some_iff.1 h
  rw [utf8_ofList, List.flatMap_append, List.getLast?_append]
  rfl

theorem compactSerde_exact : compactSerde.Exact := fun _ => rfl

theorem compactSerde_lawful : compactSerde.Lawful where
  hashOrder_perm entries := .refl entries
  toVec_ok v _ := ⟨_, rfl⟩
  fromSlice_toVec v text _ h := by
    obtain rfl := Except.ok.inj h
    rw [fromSlice_text, Json.mapDoubles_of_forall compactSerde_exact]
  newline_notMem v text h := by
    obtain rfl := Except.ok.inj h
    exact newline_notMem_utf8 (JsonText.newline_notMem_text v)
  obj_braces ms text h := by
    obtain rfl := Except.ok.inj h
    exact ⟨utf8_head _, utf8_last (JsonText.text_obj_last ms)⟩

end Eventline
