/-!
# Letter case and endings

Names are compared without regard to the case of the ASCII letters and of no others, so lowering
touches `A` to `Z` alone. The two questions asked of a lowered name are whether it ends in an
extension and whether it is one of a few words.
-/
namespace HdlDesk.Text

/-- Lowers the ASCII capitals and keeps every other character. -/
def lowerAscii (text : String) : String :=
  text.map Char.toLower

def endsIn (text ending : String) : Bool :=
  ending.toList.isSuffixOf text.toList

theorem endsIn_iff (text ending : String) :
    endsIn text ending = true ↔ ending.toList <:+ text.toList :=
  List.isSuffixOf_iff_suffix

end HdlDesk.Text
