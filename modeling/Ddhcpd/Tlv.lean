/-!
Byte strings made of tagged fields: a padding byte, a byte that ends the string before its
end, or a code with a length byte and that many bytes of value.
-/

namespace Ddhcpd.Tlv

inductive Field where
  | pad
  | stop
  | option (code : UInt8) (value : List UInt8)
  deriving DecidableEq

/-- A byte string and the fields it splits into, up to the first stop byte. -/
inductive Splits (pad stop : UInt8) : List UInt8 → List Field → Prop where
  | done : Splits pad stop [] []
  | stop (rest : List UInt8) : Splits pad stop (stop :: rest) [.stop]
  | pad {rest : List UInt8} {fields : List Field} :
      Splits pad stop rest fields → Splits pad stop (pad :: rest) (.pad :: fields)
  | option {code len : UInt8} {value rest : List UInt8} {fields : List Field} :
      code ≠ pad → code ≠ stop → value.length = len.toNat → Splits pad stop rest fields →
      Splits pad stop (code :: len :: (value ++ rest)) (.option code value :: fields)

/-- A byte string splits in one way only. -/
theorem splits_unique {pad stop : UInt8} (different : pad ≠ stop) {bytes : List UInt8}
    {fields others : List Field} (first : Splits pad stop bytes fields)
    (second : Splits pad stop bytes others) : fields = others := by
  induction first generalizing others with
  | done =>
      cases second
      rfl
  | stop rest =>
      generalize whole : stop :: rest = bytes at second
      cases second with
      | done => contradiction
      | stop _ => rfl
      | pad _ => exact absurd (List.cons.inj whole).1.symm different
      | option _ noStop _ _ => exact absurd (List.cons.inj whole).1.symm noStop
  | @pad rest _ _ ih =>
      generalize whole : pad :: rest = bytes at second
      cases second with
      | done => contradiction
      | stop _ => exact absurd (List.cons.inj whole).1 different
      | pad tail =>
          obtain rfl := (List.cons.inj whole).2
          rw [ih tail]
      | option noPad _ _ _ => exact absurd (List.cons.inj whole).1.symm noPad
  | @option code len value rest _ noPad noStop sized _ ih =>
      generalize whole : code :: len :: (value ++ rest) = bytes at second
      cases second with
      | done => contradiction
      | stop _ => exact absurd (List.cons.inj whole).1 noStop
      | pad _ => exact absurd (List.cons.inj whole).1 noPad
      | option _ _ otherSized tail =>
          obtain ⟨rfl, behind⟩ := List.cons.inj whole
          obtain ⟨rfl, body⟩ := List.cons.inj behind
          obtain ⟨rfl, rfl⟩ := List.append_inj body (sized.trans otherSized.symm)
          rw [ih tail]

end Ddhcpd.Tlv
