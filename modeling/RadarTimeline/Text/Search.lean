namespace RadarTimeline.Text

def containsList (part : List Char) : List Char → Bool
  | [] => part.isEmpty
  | c :: cs => part.isPrefixOf (c :: cs) || containsList part cs

def contains (part text : String) : Bool := containsList part.toList text.toList

end RadarTimeline.Text
