import Liblw.Http.Serve

/-!
# What taking a head apart throws

A head that is malformed leads to an error of the library, and the loop over its lines comes to an
end.
-/

namespace Liblw

/-- The fault is an error of the library. -/
def Fault.IsThrown (fault : Fault) : Prop := ∃ error, fault = .thrown error

namespace Http.HttpRequest

open Liblw.Lib

variable {σ : Type}

theorem errorsAre_raise {α : Type} (kind : ErrorKind) (message : String) :
    (raise kind message : Call Fault σ α).ErrorsAre Fault.IsThrown :=
  Call.errorsAre_throw ⟨_, rfl⟩

theorem errorsAre_checkIsSpace (header : Text) (i : Nat) :
    (checkIsSpace header i : Call Fault σ Unit).ErrorsAre Fault.IsThrown := by
  unfold checkIsSpace
  split
  · exact errorsAre_raise _ _
  · split_ifs
    · exact errorsAre_raise _ _
    · exact Call.errorsAre_pure ()

/-- The last part of the request line, behind what is set on its way. -/
theorem errorsAre_lineEnd (before after : HttpRequest → HttpRequest) (short other : Prop)
    [Decidable short] [Decidable other] (shortMessage otherMessage : String) (stop : Nat) :
    (do
      modify before
      if short then raise .invalidArgument shortMessage
      else if other then raise .invalidArgument otherMessage
      else
        modify after
        pure stop : Call Fault HttpRequest Nat).ErrorsAre Fault.IsThrown := by
  refine (Call.errorsAre_modify before).bind fun _ _ _ _ => ?_
  split_ifs
  · exact errorsAre_raise _ _
  · exact errorsAre_raise _ _
  · exact (Call.errorsAre_modify after).bind fun _ _ _ _ => Call.errorsAre_pure stop

theorem errorsAre_parseMethodLine (header : Text) :
    (parseMethodLine header).ErrorsAre Fault.IsThrown := by
  unfold parseMethodLine
  refine (errorsAre_checkIsSpace header _).bind fun _ _ _ _ => ?_
  refine (Call.errorsAre_modify _).bind fun _ _ _ _ => ?_
  refine (errorsAre_checkIsSpace header _).bind fun _ _ _ _ => ?_
  split
  · refine (Call.errorsAre_modify _).bind fun _ _ _ _ => ?_
    apply errorsAre_lineEnd
  · apply errorsAre_lineEnd

/-! ### Header lines -/

theorem errorsAre_parseHeaderLine (view : Text) :
    (parseHeaderLine view : Call Fault σ _).ErrorsAre Fault.IsThrown := by
  unfold parseHeaderLine
  dsimp only
  split_ifs
  · exact errorsAre_raise _ _
  · exact errorsAre_raise _ _
  · exact errorsAre_raise _ _
  · split
    · exact errorsAre_raise _ _
    · exact Call.errorsAre_pure _

/-- A line that was read takes characters off the view. -/
theorem length_lt_of_parseHeaderLine {view rest : Text} {field : Text × Text} {state final : σ}
    (hexec : (parseHeaderLine view).exec state = (.ok (field, rest), final)) :
    rest.length < view.length := by
  unfold parseHeaderLine at hexec
  dsimp only at hexec
  split_ifs at hexec with hline hcolon hend
  · cases hexec
  · cases hexec
  · cases hexec
  · split at hexec
    · cases hexec
    · rw [Call.exec_pure, Prod.mk.injEq, Except.ok.injEq, Prod.mk.injEq] at hexec
      rw [← hexec.1.2, List.length_drop]
      omega

theorem errorsAre_parseHeadersLoop {rounds : Nat} {view : Text} (hrounds : view.length < rounds) :
    (parseHeadersLoop rounds view).ErrorsAre Fault.IsThrown := by
  induction rounds generalizing view with
  | zero => omega
  | succ rounds ih =>
      unfold parseHeadersLoop
      split_ifs
      · exact Call.errorsAre_pure ()
      · refine (errorsAre_parseHeaderLine view).bind fun state line middle hline => ?_
        obtain ⟨⟨name, value⟩, rest⟩ := line
        have hshorter := length_lt_of_parseHeaderLine hline
        refine (Call.errorsAre_modify _).bind fun _ _ _ _ => ?_
        exact ih (by omega)

theorem errorsAre_parseContentLength : parseContentLength.ErrorsAre Fault.IsThrown := by
  intro state fault final hexec
  unfold parseContentLength at hexec
  rw [Call.exec_get_bind] at hexec
  split at hexec
  · cases hexec
  · dsimp only at hexec
    rw [Call.exec_set_bind] at hexec
    split_ifs at hexec
    · exact errorsAre_raise _ _ _ fault final hexec
    · cases hexec

/-- Taking a head apart throws errors of the library only. -/
theorem errorsAre_parseHead (rawHeader : Text) :
    (parseHead rawHeader).ErrorsAre Fault.IsThrown := by
  unfold parseHead
  refine (Call.errorsAre_modify _).bind fun _ _ _ _ => ?_
  refine (errorsAre_parseMethodLine rawHeader).bind fun _ stop _ _ => ?_
  refine (errorsAre_parseHeadersLoop (Nat.lt_succ_self _)).bind fun _ _ _ _ => ?_
  exact errorsAre_parseContentLength

end Http.HttpRequest

end Liblw
