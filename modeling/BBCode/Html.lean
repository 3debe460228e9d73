import BBCode.Text.Escape

/-!
# BBCode.Html

The HTML fragments of a rendered document that are more than one pair of tags around a body, and
the page around a document.
-/

namespace BBCode.Html

/-- The class that an expanded widget has beside the others. -/
def openClass : Bool → Text
  | true => " js-spoilerbox--open".toList
  | false => []

def flagText : Bool → Text
  | true => "true".toList
  | false => "false".toList

/-- How the body of a widget is displayed. -/
def displayValue : Bool → Text
  | true => "block".toList
  | false => "none".toList

/-- A collapsible box with the three texts that show its state given. -/
def widgetShell (title body id extraClass flag display : Text) : Text :=
  "<div class=\"js-spoilerbox bbcode-spoilerbox".toList ++ extraClass ++ "\" id=\"".toList ++ id
    ++ "\" data-widget-id=\"".toList ++ id ++ "\" data-expanded=\"".toList ++ flag
    ++ "\"><a class=\"js-spoilerbox__link bbcode-spoilerbox__link\" href=\"#\" data-widget-toggle=\"".toList
    ++ id ++ "\"><span class=\"bbcode-spoilerbox__link-icon\"></span>".toList ++ title
    ++ "</a><div class=\"js-spoilerbox__body bbcode-spoilerbox__body\" style=\"display: ".toList
    ++ display ++ ";\">".toList ++ body ++ "</div></div>".toList

/-- A collapsible box. -/
def widget (title body id : Text) (expanded : Bool) : Text :=
  widgetShell title body id (openClass expanded) (flagText expanded) (displayValue expanded)

/-- What every id of a hover card starts with. -/
def cardPrefix : Text := "qtip-".toList

/-- A link to a user's profile and the hidden hover card that belongs to it. -/
def profileLink (baseUrl userId userName : Text) (card : Nat) : Text :=
  let cardId := cardPrefix ++ decimal card
  "<a class=\"js-usercard\" href=\"".toList ++ baseUrl ++ userId ++ "\" data-user-id=\"".toList
    ++ userId ++ "\" data-tooltip-id=\"".toList ++ cardId
    ++ "\" target=\"_blank\" rel=\"noopener noreferrer\">".toList ++ userName
    ++ "</a><span id=\"".toList ++ cardId
    ++ "\" class=\"qtip qtip--user-card\" data-user-id=\"".toList ++ userId
    ++ "\" hidden></span>".toList

def audioPlayer (src : Text) : Text :=
  "<div class=\"audio-player\"><audio controls preload=\"none\" src=\"".toList ++ src
    ++ "\"></audio></div>".toList

/-- A link that opens in a new page. -/
def link (url body : Text) : Text :=
  "<a href=\"".toList ++ url ++ "\" target=\"_blank\" rel=\"noopener noreferrer\">".toList ++ body
    ++ "</a>".toList

/-- A URL that links to itself. -/
def anchor (url : Text) : Text := link url url

def stylesheetLink (path : Text) : Text :=
  "<link rel=\"stylesheet\" href=\"".toList ++ Text.escapeQuoted path ++ "\">\n".toList

/-- A whole page around a body. -/
def page (stylesheet : Option Text) (body : Text) : Text :=
  "<!DOCTYPE html>\n<html>\n<head>\n<meta charset=\"utf-8\">\n".toList
    ++ (stylesheet.map stylesheetLink).getD [] ++ "</head>\n<body>\n".toList ++ body
    ++ "\n</body>\n</html>\n".toList

end BBCode.Html
