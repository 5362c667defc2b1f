import MatrixScript.Scalar.Float

/-!
# Machine multiplication

A product of machine numbers is rounded once, and all that it is rounded from is the same
for the factors in the other order.  So multiplication is commutative to the last bit, with
infinities, zeros of both signs and not-a-number, which has one bit pattern only, among the
factors.
-/

namespace MatrixScript

namespace Binary64

open Float.Model

theorem sign_mul_comm (s t : UnpackedFloat.Sign) : s * t = t * s := by
  cases s <;> cases t <;> rfl

theorem unpacked_mul_comm (format : Format) (x y : UnpackedFloat) :
    UnpackedFloat.mul format x y = UnpackedFloat.mul format y x := by
  cases x with
  | notANumber => cases y <;> rfl
  | infinity s =>
      cases y with
      | notANumber | zero => rfl
      | infinity t | finite t => exact congrArg UnpackedFloat.infinity (sign_mul_comm s t)
  | zero s =>
      cases y with
      | notANumber | infinity => rfl
      | zero t | finite t => exact congrArg UnpackedFloat.zero (sign_mul_comm s t)
  | finite s m e =>
      cases y with
      | notANumber => rfl
      | infinity t => exact congrArg UnpackedFloat.infinity (sign_mul_comm s t)
      | zero t => exact congrArg UnpackedFloat.zero (sign_mul_comm s t)
      | finite t n d =>
          show UnpackedFloat.roundWithAccuracy format (s * t) (m * n) (e + d) .exact =
            UnpackedFloat.roundWithAccuracy format (t * s) (n * m) (d + e) .exact
          rw [sign_mul_comm s t, Nat.mul_comm m n, Int.add_comm e d]

protected theorem mul_comm (x y : Float) : x * y = y * x :=
  congrArg (fun product => Float.ofModel (Float.Model.pack product))
    (unpacked_mul_comm Format.binary64 x.toModel.unpack y.toModel.unpack)

end Binary64

end MatrixScript
