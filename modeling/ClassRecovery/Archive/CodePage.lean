import ClassRecovery.Bytes

/-!
Names in an archive that are not marked as UTF-8 are written in code page 437.
-/

namespace ClassRecovery.Archive.CodePage

def upper : Array Char :=
  ("ÇüéâäàåçêëèïîìÄÅÉæÆôöòûùÿÖÜ¢£¥₧ƒáíóúñÑªº¿⌐¬½¼¡«»░▒▓│┤╡╢╖╕╣║╗╝╜╛┐└┴┬├─┼╞╟╚╔╩╦╠═╬╧╨╤╥╙╘╒╓╫╪┘┌" ++
    "█▄▌▐▀αßΓπΣσµτΦΘΩδ∞φε∩≡±≥≤⌠⌡÷≈°∙·√ⁿ²■\u00a0").toList.toArray

def char (b : UInt8) : Char :=
  if b < 0x80 then Char.ofNat b.toNat else upper[b.toNat - 0x80]?.getD ' '

def decode (b : Bytes) : String := .ofList (b.map char)

theorem size_upper : upper.size = 128 := by cbv

end ClassRecovery.Archive.CodePage
