/-! Letters without regard to case, for comparison with ASCII words. -/
namespace TaintReach.Text

/-- The small letter. The long s and the Kelvin sign count as the ASCII letters
that share their capital or small form; no other character beyond ASCII does. -/
def foldCase (c : Char) : Char :=
  if c = '\u017f' then 's' else if c = '\u212a' then 'k' else c.toLower

/-- Whether a text is an ASCII word, case aside; the word is given in small letters. -/
def isWordFolded (word text : String) : Bool := text.toList.map foldCase = word.toList

end TaintReach.Text
