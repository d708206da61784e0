import DurableBus.Proofs.Text.Blank
import DurableBus.Proofs.Text.Hex
import DurableBus.Trace.Propagation

/-!
# Trace contexts read back

What the W3C propagator writes into metadata it reads back from there, whatever the metadata held before.

* `splitAtEach_append` : a separator ends the piece before it;
* `readParts?_traceParent` : a `traceparent` entry is read back from its parts;
* `extract_inject` : a valid context is read back, as that of another process;
* `get?_inject`, `inject_of_invalid` : other entries stay, and an invalid context writes nothing.
-/

set_option autoImplicit false

namespace DurableBus

/-! ## Pieces -/

theorem splitAtEach_of_not_mem {separator : Char} {cs : List Char} (h : separator ∉ cs) :
    splitAtEach separator cs = [cs] := by
  induction cs with
  | nil => rfl
  | cons c rest ih =>
    rw [List.mem_cons, not_or] at h
    rw [splitAtEach, if_neg (Ne.symm h.1), ih h.2]

theorem splitAtEach_append {separator : Char} {piece : List Char} (h : separator ∉ piece) (cs : List Char) :
    splitAtEach separator (piece ++ separator :: cs) = piece :: splitAtEach separator cs := by
  induction piece with
  | nil => rw [List.nil_append, splitAtEach, if_pos rfl]
  | cons c rest ih =>
    rw [List.mem_cons, not_or] at h
    rw [List.cons_append, splitAtEach, if_neg (Ne.symm h.1), ih h.2]

namespace Propagator

variable {c : SpanContext}

def flagsText (c : SpanContext) : List Char := ['0', if c.sampled then '1' else '0']

theorem traceParent_eq (c : SpanContext) :
    traceParent c = ['0', '0'] ++ '-' :: (c.traceText ++ '-' :: (c.spanText ++ '-' :: flagsText c)) := by
  simp [traceParent, flagsText]

theorem hyphen_not_mem_fixed (width n : Nat) : '-' ∉ Hex.fixed width n := fun h =>
  Hex.forall_mem_fixed (p := (· ≠ '-')) (by decide) width n '-' h rfl

theorem splitTerminated_traceParent (c : SpanContext) :
    splitTerminated '-' (traceParent c) = [['0', '0'], c.traceText, c.spanText, flagsText c] := by
  have htrace : '-' ∉ c.traceText := hyphen_not_mem_fixed 32 _
  have hspan : '-' ∉ c.spanText := hyphen_not_mem_fixed 16 _
  have hflags : '-' ∉ flagsText c := by
    unfold flagsText
    cases c.sampled <;> decide
  unfold splitTerminated
  rw [traceParent_eq, splitAtEach_append (by decide), splitAtEach_append htrace, splitAtEach_append hspan,
    splitAtEach_of_not_mem hflags]
  exact if_neg (by simp [flagsText])

theorem trimBlanks_traceParent (c : SpanContext) : trimBlanks (traceParent c) = traceParent c := by
  refine trimBlanks_of_forall ?_
  have hdigits := Hex.forall_mem_fixed (p := fun d => isBlank d = false) (by decide +kernel)
  have hhyphen : isBlank '-' = false := rfl
  have hzero : isBlank '0' = false := rfl
  have hone : isBlank '1' = false := rfl
  have hflags : ∀ d ∈ flagsText c, isBlank d = false := by
    unfold flagsText
    cases c.sampled <;> simp [hzero, hone]
  rw [traceParent_eq]
  simp only [List.forall_mem_append, List.forall_mem_cons]
  exact ⟨by simp [hzero], hhyphen, hdigits 32 _, hhyphen, hdigits 16 _, hhyphen, hflags⟩

theorem below?_traceText (c : SpanContext) : Hex.below? traceBound c.traceText = some c.traceId.toNat :=
  Hex.below?_fixed c.traceId.isLt c.traceId.isLt (by decide)

theorem below?_spanText (c : SpanContext) : Hex.below? spanBound c.spanText = some c.spanId.toNat :=
  Hex.below?_fixed c.spanId.isLt c.spanId.isLt (by decide)

theorem below?_flagsText (c : SpanContext) : Hex.below? 256 (flagsText c) = some (if c.sampled then 1 else 0) := by
  unfold flagsText
  cases c.sampled <;> decide

theorem any_isUpper_fixed (width n : Nat) : (Hex.fixed width n).any Char.isUpper = false := by
  rw [List.any_eq_false]
  exact fun d hd => by simp [Hex.forall_mem_fixed (p := fun d => d.isUpper = false) (by decide) width n d hd]

/-- **A `traceparent` entry is read back from its parts.** -/
theorem readParts?_traceParent (c : SpanContext) (state : TraceState) :
    readParts? (splitTerminated '-' (traceParent c)) state = some { c with remote := true, state } := by
  have hversion : Hex.below? 256 ['0', '0'] = some 0 := by decide
  have htrace : c.traceText.any Char.isUpper = false := any_isUpper_fixed 32 _
  have hspan : c.spanText.any Char.isUpper = false := any_isUpper_fixed 16 _
  rw [splitTerminated_traceParent, readParts?]
  simp only [hversion, htrace, hspan, below?_traceText, below?_spanText, below?_flagsText]
  obtain ⟨traceId, spanId, sampled, remote, state'⟩ := c
  cases sampled <;> simp

/-! ## Metadata -/

theorem get?_inject (cx : TraceContext) (m : Metadata) {key : String} (hparent : key ≠ "traceparent")
    (hstate : key ≠ "tracestate") : (w3c.inject cx m).get? key = m.get? key := by
  unfold inject
  simp only
  split
  · rw [Metadata.get?_put, if_neg (Ne.symm hstate), Metadata.get?_put, if_neg (Ne.symm hparent)]
  · rfl

/-- An invalid context writes nothing. -/
theorem inject_of_invalid {cx : TraceContext} (invalid : cx.valid? = none) (m : Metadata) :
    w3c.inject cx m = m := by
  unfold inject
  rw [invalid]

/-- **A valid context is read back**, as that of another process, whatever the metadata held before. -/
theorem extract_inject {cx : TraceContext} {c : SpanContext} (valid : cx.valid? = some c)
    (readable : TraceState.parse? c.state.header = some c.state) (m : Metadata) :
    w3c.extract (w3c.inject cx m) = some { c with remote := true } := by
  have hparent : (w3c.inject cx m).get? "traceparent" = some (String.ofList (traceParent c)) := by
    unfold inject
    simp only [valid]
    rw [Metadata.get?_put, if_neg (by decide), Metadata.get?_put, if_pos rfl]
  have hstate : (w3c.inject cx m).get? "tracestate" = some (String.ofList c.state.header) := by
    unfold inject
    simp only [valid]
    rw [Metadata.get?_put, if_pos rfl]
  have hvalid : c.isValid := (Option.filter_eq_some_iff.1 valid).2
  show readTraceParent? _ = _
  unfold readTraceParent?
  rw [hparent, hstate]
  simp only [Option.getD_some, String.toList_ofList, Option.bind_some, readable, trimBlanks_traceParent,
    readParts?_traceParent]
  exact Option.filter_eq_some_iff.2 ⟨rfl, hvalid⟩

end Propagator

end DurableBus
