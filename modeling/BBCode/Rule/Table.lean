import BBCode.Rule

/-!
# BBCode.Rule.Table

The rules of the language, grouped in stages. Within a stage they are applied in the order given
here.
-/

namespace BBCode

/-- The groups of rules. -/
inductive Stage where
  | lineBreaks
  | formatting
  | color
  | specials
  | quotes
  | inlineCode
  | layout
  | linksAndMedia
  | trailing
  | collapseBreaks
  deriving DecidableEq, Repr

namespace Stage

def all : List Stage :=
  [lineBreaks, formatting, color, specials, quotes, inlineCode, layout, linksAndMedia, trailing,
   collapseBreaks]

def quote (body : Text) : Text :=
  Rule.between "<blockquote>" "</blockquote>" body.trimBreaks

def attributedQuote (author body : Text) : Text :=
  Rule.between "<blockquote><h4>" " wrote:</h4>" author
    ++ Rule.between "" "</blockquote>" body.trimBreaks

/-- Code with a line break in it stays as it is: it was not protected as a code region, and the
markup of the break would show. -/
def inlineCodeSpan (r : Region) : Text :=
  if (nearest? id lineBreak r.body).isSome then r.source
  else Rule.between "<code>" "</code>" r.body

def profile (o : Options) (card : Nat) (r : Region) : Text :=
  Html.profileLink o.profileUrl r.param r.body card

def notice (body : Text) : Text :=
  Rule.between "<div class=\"well\">" "</div>" body.trimBreaks

def sizedImage (width src : Text) : Text :=
  Rule.between "<img src=\"" "\" alt=\"Image\" style=\"max-width: " src
    ++ Rule.between "" "px;\" />" width

/-- The rules of a stage, in order. A heading swallows the line break after it, and so do blocks
when the text is complete. -/
def rules : Stage → List Rule
  | lineBreaks =>
    [.respell "crlf" id ['\r', '\n'] (by decide) ['\n'],
     .respell "newline" id ['\n'] (by decide) lineBreak,
     .respell "heading-break" foldCase "[/heading]<br>".toList (by decide) "[/heading]".toList]
  | formatting =>
    [.bare "bold" "b" (Rule.between "<strong>" "</strong>"),
     .bare "italic" "i" (Rule.between "<em>" "</em>"),
     .bare "underline" "u" (Rule.between "<u>" "</u>"),
     .bare "strike" "s" (Rule.between "<s>" "</s>"),
     .bare "strike-long" "strike" (Rule.between "<s>" "</s>")]
  | color =>
    [.valued "color" "color" .any fun value body =>
      Rule.between "<span style=\"color:" ";\">" value ++ Rule.between "" "</span>" body]
  | specials =>
    [.bare "spoiler" "spoiler" (Rule.between
      "<span class=\"spoiler\" onclick=\"this.classList.toggle('revealed')\">" "</span>")]
  | quotes =>
    [.bare "quote" "quote" quote,
     .valued "quote-author" "quote" .quoted attributedQuote]
  | inlineCode =>
    [⟨"inline-code", (TagPair.mk ['c'] none).pattern, .replace inlineCodeSpan⟩]
  | layout => [.bare "centre" "centre" (Rule.between "<center>" "</center>")]
  | linksAndMedia =>
    [.bare "url" "url" Html.anchor,
     .valued "url-titled" "url" .any Html.link,
     ⟨"profile", (TagPair.mk "profile".toList (some .any)).pattern, .numbered profile⟩,
     .bare "image" "img" (Rule.between "<img src=\"" "\" alt=\"Image\" />"),
     .valued "image-sized" "img" .any sizedImage,
     .bare "youtube" "youtube" (Rule.between
      "<iframe class=\"u-embed-wide u-embed-wide--bbcode\" src=\"https://www.youtube.com/embed/"
      "?rel=0\" allowfullscreen></iframe>"),
     .bare "audio" "audio" Html.audioPlayer]
  | trailing =>
    [.valued "email" "email" .any fun address body =>
      Rule.between "<a href=\"mailto:" "\">" address ++ Rule.between "" "</a>" body,
     .bare "heading" "heading" (Rule.between "<h2 class=\"osu-heading\">" "</h2>"),
     .bare "notice" "notice" notice]
  | collapseBreaks =>
    [.dropBreakAfter "div-break" "</div>", .dropBreakAfter "blockquote-break" "</blockquote>"]

def apply (o : Options) (s : Stage) (x : Text × Tally) : Text × Tally :=
  Rule.applyAll o s.rules x

end Stage

namespace Rule

/-- The size tag for the allowed values. Without any there is no such rule. -/
def size? (allowed : List UInt16) : Option Rule :=
  if allowed.isEmpty then none
  else
    some (.valued "size" "size" (.oneOf (allowed.map fun n => decimal n.toNat))
      fun value body => between "<span style=\"font-size:" "%;\">" value
        ++ between "" "</span>" body)

end Rule

end BBCode
