import Liblw.Proof.FormatterNesting
import Liblw.Proof.ParseTokens

/-!
# Strings there and back

The encoder puts a backslash before every quotation mark and `decode_string` takes it away again, so
the two undo each other on every string. What stands between them is the scanner that looks for the
end of the literal: it ends the literal at an escaped quotation mark too, and the rest of the text
is then input after a complete document.
-/

namespace Liblw.Mime

open Lib JSONParse

/-- Writing the string with a fresh formatter and parsing what was written gives the string back. -/
def StringRoundTrips (str : Text) : Prop :=
  ∃ final token,
    (JSONSerializationFormatter.putString str).exec JSONSerializationFormatter.make =
      (.ok (), final) ∧
    parse final.output = .ok token ∧ token.isString = true ∧ token.getString = .ok str

theorem exec_putString_make (str : Text) :
    (JSONSerializationFormatter.putString str).exec JSONSerializationFormatter.make =
      (.ok (), ⟨[], stringLiteral str⟩) := by
  rw [JSONSerializationFormatter.make, exec_putString str rfl]
  rfl

/-- The first literal of a text is the whole document. -/
theorem updateLoop_literal {before : Text} (hbefore : '"' ∉ before) (rest : Text) :
    updateLoop 0 0 ('"' :: (before ++ '"' :: rest)) JSONParse.make =
      updateLoop (0 + before.length + 2) 0 rest
        ⟨[], some (.value (.scalar (.make .string ('"' :: (before ++ ['"'])))))⟩ :=
  updateLoop_string hbefore 0 rest rfl fun _ => rfl

theorem parse_stringLiteral {str : Text} (hstr : '"' ∉ str) :
    parse (stringLiteral str) = .ok (.scalar (.make .string (stringLiteral str))) := by
  have hloop := updateLoop_literal (quote_notMem_flatMap_escape hstr) []
  rw [parse, JSONParse.update, stringLiteral, literalIn, List.cons_append, hloop]
  rfl

/-- A literal with a quotation mark in it is refused. -/
theorem parse_stringLiteral_of_mem {str : Text} (hstr : '"' ∈ str) :
    ∃ message, parse (stringLiteral str) = .error (.thrown ⟨.invalidArgument, message⟩) := by
  obtain ⟨before, after, rfl, hbefore⟩ := List.eq_append_cons_of_mem hstr
  -- the first quotation mark after the opening one is the escaped one
  have hsplit : stringLiteral (before ++ '"' :: after) =
      '"' :: ((before.flatMap escape ++ ['\\']) ++ '"' :: (after.flatMap escape ++ ['"'])) := by
    simp [literalIn, escape]
  have hfirst : '"' ∉ before.flatMap escape ++ ['\\'] := by
    rw [List.mem_append, not_or]
    exact ⟨quote_notMem_flatMap_escape hbefore, by decide⟩
  let complete : JSONParse := ⟨[], some (.value (.scalar (.make .string
    ('"' :: ((before.flatMap escape ++ ['\\']) ++ ['"'])))))⟩
  have hfinal : complete.finalValue.isSome = true := rfl
  have hlast : '"' ∈ after.flatMap escape ++ ['"'] := by simp
  obtain ⟨message, hrest⟩ := updateLoop_of_final hlast (by decide)
    (0 + (before.flatMap escape ++ ['\\']).length + 2) hfinal
  refine ⟨message, ?_⟩
  rw [parse, JSONParse.update, hsplit, updateLoop_literal hfirst, hrest]
  rfl

/-- **Strings without a quotation mark, and no others, survive the round trip.** -/
theorem stringRoundTrips_iff (str : Text) : StringRoundTrips str ↔ '"' ∉ str := by
  constructor
  · rintro ⟨final, token, hexec, hparse, -, -⟩ hmem
    rw [exec_putString_make] at hexec
    cases hexec
    obtain ⟨message, herror⟩ := parse_stringLiteral_of_mem hmem
    rw [herror] at hparse
    cases hparse
  · intro hstr
    refine ⟨_, _, exec_putString_make str, parse_stringLiteral hstr, rfl, ?_⟩
    change Except.ok (decodeString (stringLiteral str)) = _
    rw [decodeString_stringLiteral]

/-- The string that is one quotation mark. -/
theorem not_stringRoundTrips_quote : ¬ StringRoundTrips ['"'] := by
  rintro ⟨final, token, hexec, hparse, -, -⟩
  rw [exec_putString_make] at hexec
  cases hexec
  have hrefused : parse (stringLiteral ['"']) = .error (.thrown ⟨.invalidArgument,
      "Unexpected additional input after value at character 3 in JSON."⟩) := by rfl
  rw [hrefused] at hparse
  cases hparse

end Liblw.Mime
