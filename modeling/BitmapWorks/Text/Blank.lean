/-!
# Blank — white space

The characters with the Unicode property `White_Space`.
-/
namespace BitmapWorks
namespace Text

def isBlank (c : Char) : Bool :=
  let n := c.toNat
  (decide (9 ≤ n) && decide (n ≤ 13)) || n == 0x20 || n == 0x85 || n == 0xA0 || n == 0x1680
    || (decide (0x2000 ≤ n) && decide (n ≤ 0x200A)) || n == 0x2028 || n == 0x2029 || n == 0x202F || n == 0x205F
    || n == 0x3000

def trimFront (cs : List Char) : List Char := cs.dropWhile isBlank

def trimBack (cs : List Char) : List Char := (trimFront cs.reverse).reverse

def trim (cs : List Char) : List Char := trimBack (trimFront cs)

end Text
end BitmapWorks
