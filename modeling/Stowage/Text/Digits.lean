set_option autoImplicit false

namespace Stowage.Text

def padded (width n : Nat) : String :=
  let digits := Nat.toDigits 10 n
  String.ofList (List.replicate (width - digits.length) '0' ++ digits)

end Stowage.Text
