import Fireworks.Arithmetic

/-! # Double precision floats as numbers of a show -/
namespace Fireworks

instance : Arithmetic Float where
  ofNat n := Float.ofNat n
  abs := Float.abs
  floor := Float.floor
  isFinite := Float.isFinite
  toCount x := x.toUInt64.toNat
  decidableLT := inferInstance
  decidableLE := inferInstance

instance : Elementary Float where
  sqrt := Float.sqrt
  sin := Float.sin
  cos := Float.cos
  pow := Float.pow
  pi := 3.141592653589793

end Fireworks
