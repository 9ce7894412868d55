import Liblw.Proof.ParseFrames

/-!
# How a parse can end

The rounds of the loop put together: a whole text ends in a token or in `InvalidArgument` exactly
when the frame machine meets no defect on the text's lexemes.
-/

namespace Liblw.Mime

open JSONParse

/-- An error is well behaved or not whatever was to be returned. -/
theorem wellBehaved_error {α β : Type} {fault : Fault}
    (herror : WellBehaved (.error fault : Result α)) : WellBehaved (.error fault : Result β) := by
  rcases herror with ⟨value, hvalue⟩ | ⟨message, hmessage⟩
  · cases hvalue
  · exact Or.inr ⟨message, by simpa using hmessage⟩

/-- Behind a complete document the loop passes blanks or throws `InvalidArgument`. -/
theorem wellBehaved_updateLoop_of_final (text : Text) (i skip : Nat) {parse : JSONParse}
    (hfinal : parse.finalValue.isSome = true) : WellBehaved (updateLoop i skip text parse) := by
  induction text generalizing i skip with
  | nil => exact Or.inl ⟨parse, by rw [updateLoop]⟩
  | cons c text ih =>
      cases skip with
      | succ skip =>
          rw [updateLoop]
          exact ih (i + 1) skip
      | zero =>
          rw [updateLoop]
          by_cases hspace : isSpace c = true
          · rw [if_pos hspace]
            exact ih (i + 1) 0
          · rw [if_neg hspace, if_pos hfinal]
            exact Or.inr ⟨_, rfl⟩

/-- **The whole loop.** It is well behaved exactly on the texts that the machine reads without a
defect. -/
theorem wellBehaved_updateLoop_iff (text : Text) {frames : List Frame} {stack : List JSONToken}
    (hholds : Holds frames stack) (i skip : Nat) :
    WellBehaved (updateLoop i skip text ⟨stack, none⟩) ↔
      tame frames (lexemes skip text) = true := by
  induction text generalizing frames stack i skip with
  | nil =>
      rw [updateLoop, lexemes, tame]
      exact iff_of_true (Or.inl ⟨_, rfl⟩) rfl
  | cons c text ih =>
      cases skip with
      | succ skip =>
          rw [updateLoop, lexemes]
          exact ih hholds (i + 1) skip
      | zero =>
          rw [updateLoop, lexemes]
          by_cases hspace : isSpace c = true
          · rw [if_pos hspace, if_pos hspace]
            exact ih hholds (i + 1) 0
          · obtain ⟨state, hround, hanswers⟩ := roundAnswers_updateChar hholds c text i
            simp only [hspace, Bool.false_eq_true, ↓reduceIte, Option.isSome_none, hround, tame]
            cases hverdict : advance frames (lexeme (c :: text)).1 with
            | next frames =>
                rw [hverdict] at hanswers
                obtain ⟨stack, rfl, hholds⟩ := hanswers
                simp only [Except.map, Nat.add_sub_cancel_left]
                exact ih hholds (i + 1) _
            | complete =>
                rw [hverdict] at hanswers
                obtain ⟨token, rfl⟩ := hanswers
                exact iff_of_true (wellBehaved_updateLoop_of_final text _ _ rfl) rfl
            | refused =>
                rw [hverdict] at hanswers
                obtain ⟨message, rfl⟩ := hanswers
                exact iff_of_true (Or.inr ⟨message, rfl⟩) rfl
            | defect =>
                rw [hverdict] at hanswers
                cases state with
                | ok next => exact absurd (Or.inl ⟨next, rfl⟩) hanswers
                | error fault =>
                    exact iff_of_false (fun hloop => hanswers (wellBehaved_error hloop)) (by simp)

/-- What `update` and `parse` do after the loop is harmless. -/
theorem wellBehaved_parse_iff_updateLoop (str : Text) :
    WellBehaved (parse str) ↔ WellBehaved (updateLoop 0 0 str make) := by
  cases hloop : updateLoop 0 0 str make with
  | error fault =>
      have hparse : parse str = .error fault := by
        simp only [parse, update, hloop]
        rfl
      rw [hparse]
      exact ⟨wellBehaved_error, wellBehaved_error⟩
  | ok state =>
      refine iff_of_true ?_ (Or.inl ⟨state, rfl⟩)
      obtain ⟨stack, final⟩ := state
      cases stack with
      | cons top stack =>
          refine Or.inr ⟨"Unexpected end of input to JSON parser.", ?_⟩
          simp only [parse, update, hloop]
          rfl
      | nil =>
          match final with
          | none =>
              refine Or.inr ⟨"Unexpected end of input to JSON parser.", ?_⟩
              simp only [parse, update, hloop]
              rfl
          | some (.char c) =>
              refine Or.inr ⟨"Malformed JSON document.", ?_⟩
              simp only [parse, update, hloop]
              rfl
          | some (.value token) =>
              refine Or.inl ⟨token, ?_⟩
              simp only [parse, update, hloop]
              rfl

/-- **How `parse` ends.** It returns a token or throws `InvalidArgument` on exactly the texts that
the frame machine reads without a defect; on every other text it takes the top of an empty stack,
reads past the view, or ends in `Unimplemented` or `FailedPrecondition`. -/
theorem wellBehaved_parse_iff (str : Text) :
    WellBehaved (parse str) ↔ tame [] (lexemes 0 str) = true := by
  rw [wellBehaved_parse_iff_updateLoop]
  exact wellBehaved_updateLoop_iff str .empty 0 0

/-- A lone closing brace takes the top of the empty stack. -/
theorem not_wellBehaved_parse_brace : ¬ WellBehaved (parse ['}']) := by
  have hparse : parse ['}'] = .error (.undefined .emptyStackTop) := rfl
  rw [hparse]
  exact not_wellBehaved_error (by simp)

end Liblw.Mime
