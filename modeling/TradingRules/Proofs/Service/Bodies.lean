import TradingRules.Service.Routes

/-!
# Bodies of requests

A content whose first characters are those of an object with a field is taken to be in UTF-8, and
the body of the request is what is read from its characters.
-/

namespace TradingRules

theorem Text.toList_bytes (b : ByteArray) : b.toList = b.data.toList := by
  have hloop : ∀ i before, ByteArray.toList.loop b i before =
      before.reverse ++ b.data.toList.drop i := by
    intro i before
    fun_induction ByteArray.toList.loop b i before with
    | case1 i before hi ih =>
      have hlength : i < b.data.toList.length := hi
      have hget : b.get! i = b.data.toList[i] := getElem!_pos b.data i hi
      rw [ih, List.reverse_cons, List.append_assoc, List.singleton_append, hget,
        ← List.drop_eq_getElem_cons hlength]
    | case2 i before hi =>
      have hlength : b.data.toList.length ≤ i := Nat.le_of_not_lt hi
      rw [List.drop_eq_nil_of_le hlength, List.append_nil]
  exact hloop 0 []

/-- A content that starts as an object with a field does is in UTF-8. -/
theorem Text.decodeDetected?_of_object {content : String} {rest : List Char}
    (h : content.toList = '\x7b' :: '"' :: rest) : decodeDetected? content = some content := by
  have hbytes : content.toUTF8.toList = 123 :: 34 :: rest.utf8Encode.data.toList := by
    have hcontent : content = String.ofList ('\x7b' :: '"' :: rest) := by
      rw [← h, String.ofList_toList]
    rw [toList_bytes, hcontent]
    show (String.ofList ('\x7b' :: '"' :: rest)).toByteArray.data.toList = _
    rw [String.toByteArray_ofList, List.utf8Encode_cons, List.utf8Encode_cons (l := rest),
      ByteArray.toList_data_append, ByteArray.toList_data_append]
    rfl
  rw [decodeDetected?, hbytes, h]
  rfl

namespace Json

theorem read_eq_ok {text : String} {v : Value} (h : readChecked text.toList = .ok v) :
    read text = .ok v := by
  rw [read, h]
  rfl

end Json

theorem Service.Request.isJson_of_contentType {r : Request}
    (h : r.contentType = "application/json") : r.isJson = true := by
  rw [isJson, h]
  decide +kernel

/-- The body of a request is the object that is read from its content, if this has a field. -/
theorem Service.Request.body_eq_ok {r : Request} {rest : List Char} {v : Value}
    (hjson : r.isJson = true) (hcontent : r.content.toList = '\x7b' :: '"' :: rest)
    (hread : Json.readChecked r.content.toList = .ok v) (hv : v.isTruthy = true) :
    r.body = .ok v := by
  rw [body, hjson, Text.decodeDetected?_of_object hcontent]
  dsimp only
  rw [Json.read_eq_ok hread]
  exact congrArg Except.ok (if_pos hv)

end TradingRules
