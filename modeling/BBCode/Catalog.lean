import BBCode.Text

/-!
# BBCode.Catalog

The tags that an editor offers: what their buttons show, what they insert, what their help says.
The renderer does not look at the catalog.
-/

namespace BBCode

inductive Category where
  | format
  | media
  | layout
  | special
  | osu
  deriving DecidableEq, Repr

namespace Category

def name : Category → String
  | format => "format"
  | media => "media"
  | layout => "layout"
  | special => "special"
  | osu => "osu"

end Category

structure CatalogEntry where
  /-- The text of the button. -/
  label : String
  /-- The class names of the icon. -/
  icon : String
  category : Option Category
  shortcut : Option String
  /-- The opening tag as it is inserted, perhaps with an example value after an equals sign. -/
  tag : Text
  /-- What is inserted between the tags. -/
  placeholder : Text
  hasClosingTag : Bool
  documentation : String
  detail : String
  hoverInfo : String
  /-- The rank among completions, the lower the earlier. -/
  sortOrder : Nat

namespace CatalogEntry

/-- The name of the tag, without the example value. -/
def tagName (e : CatalogEntry) : Text := e.tag.takeWhile (· ≠ '=')

/-- The text to insert for this tag. -/
def snippet (e : CatalogEntry) : Text :=
  let opening := '[' :: e.tag ++ [']']
  if e.hasClosingTag then opening ++ e.placeholder ++ '[' :: '/' :: e.tagName ++ [']'] else opening

end CatalogEntry

namespace Catalog

/-- Every tag, in the order of the toolbar. -/
def entries : List CatalogEntry :=
  [{ label := "Bold", icon := "fas fa-bold", category := some .format
     shortcut := some "Ctrl+B"
     tag := "b".toList, placeholder := "text".toList
     hasClosingTag := true, sortOrder := 0
     documentation := "**Bold** - renders text in bold"
     detail := "BBCode bold tag"
     hoverInfo := "**Bold tag** - renders text in bold\n\nUsage: `[b]text[/b]`" },
   { label := "Italic", icon := "fas fa-italic", category := some .format
     shortcut := some "Ctrl+I"
     tag := "i".toList, placeholder := "text".toList
     hasClosingTag := true, sortOrder := 0
     documentation := "**Italic** - renders text in italics"
     detail := "BBCode italic tag"
     hoverInfo := "**Italic tag** - renders text in italics\n\nUsage: `[i]text[/i]`" },
   { label := "Underline", icon := "fas fa-underline", category := some .format
     shortcut := some "Ctrl+U"
     tag := "u".toList, placeholder := "text".toList
     hasClosingTag := true, sortOrder := 0
     documentation := "**Underline** - underlines text"
     detail := "BBCode underline tag"
     hoverInfo := "**Underline tag** - underlines text\n\nUsage: `[u]text[/u]`" },
   { label := "Strikethrough", icon := "fas fa-strikethrough", category := some .format
     shortcut := none
     tag := "s".toList, placeholder := "text".toList
     hasClosingTag := true, sortOrder := 0
     documentation := "**Strikethrough** - strikes text through"
     detail := "BBCode strikethrough tag"
     hoverInfo := "**Strikethrough tag** - strikes text through\n\nUsage: `[s]text[/s]`" },
   { label := "Color", icon := "fas fa-palette", category := some .format
     shortcut := none
     tag := "color=#ff0000".toList, placeholder := "text".toList
     hasClosingTag := true, sortOrder := 3
     documentation :=
      "**Text color** - sets the text color\n\nExample: `[color=#ff0000]red text[/color]`"
     detail := "BBCode color tag"
     hoverInfo := "**Color tag** - sets the text color\n\nUsage: `[color=#ff0000]text[/color]`" },
   { label := "Size", icon := "fas fa-text-height", category := some .format
     shortcut := none
     tag := "size=100".toList, placeholder := "text".toList
     hasClosingTag := true, sortOrder := 3
     documentation :=
      "**Text size** - sets the text size as a percentage\n\nExample: `[size=150]large text[/size]`"
     detail := "BBCode size tag"
     hoverInfo :=
      "**Size tag** - sets the text size\n\nUsage: `[size=100]text[/size]`\n\nOnly 50, 85, 100 and 150 are supported. 100 is normal size, 150 is 1.5x" },
   { label := "Link", icon := "fas fa-link", category := some .media
     shortcut := some "Ctrl+K"
     tag := "url=https://example.com".toList, placeholder := "link text".toList
     hasClosingTag := true, sortOrder := 1
     documentation :=
      "**Hyperlink** - creates a clickable link\n\nExample: `[url=https://osu.ppy.sh]visit osu![/url]`"
     detail := "BBCode link tag"
     hoverInfo := "**Link tag** - creates a hyperlink\n\nUsage: `[url=address]text[/url]`" },
   { label := "Image", icon := "fas fa-image", category := some .media
     shortcut := none
     tag := "img".toList, placeholder := "https://example.com/image.jpg".toList
     hasClosingTag := true, sortOrder := 1
     documentation :=
      "**Image** - inserts an image\n\nExample: `[img]https://example.com/logo.png[/img]`"
     detail := "BBCode image tag"
     hoverInfo := "**Image tag** - inserts an image\n\nUsage: `[img]image address[/img]`" },
   { label := "Centre", icon := "fas fa-align-center", category := some .layout
     shortcut := none
     tag := "centre".toList, placeholder := "centered text".toList
     hasClosingTag := true, sortOrder := 5
     documentation := "**Centre** - centers text"
     detail := "BBCode centre tag"
     hoverInfo := "**Centre tag** - centers text\n\nUsage: `[centre]text[/centre]`" },
   { label := "Code block", icon := "fas fa-code", category := some .special
     shortcut := none
     tag := "code".toList, placeholder := "\n// code\n".toList
     hasClosingTag := true, sortOrder := 2
     documentation := "**Code block** - shows formatted code\n\nFor displaying source code"
     detail := "BBCode code block tag"
     hoverInfo := "**Code block tag** - shows a code block\n\nUsage: `[code]code[/code]`" },
   { label := "Inline code", icon := "fas fa-terminal", category := some .special
     shortcut := none
     tag := "c".toList, placeholder := "code".toList
     hasClosingTag := true, sortOrder := 2
     documentation := "**Inline code** - shows code inline\n\nFor displaying source code"
     detail := "BBCode inline code tag"
     hoverInfo := "**Inline code tag** - shows code inline\n\nUsage: `[c]code[/c]`" },
   { label := "Quote", icon := "fas fa-quote-right", category := some .special
     shortcut := none
     tag := "quote".toList, placeholder := "quoted text".toList
     hasClosingTag := true, sortOrder := 2
     documentation :=
      "**Quote** - quotes someone\n\nCommonly used when replying\n\nAlternative: `[quote=\"author\"]text[/quote]`"
     detail := "BBCode quote tag"
     hoverInfo :=
      "**Quote tag** - shows quoted text\n\nUsage: `[quote]quoted text[/quote]`\nor: `[quote=\"author\"]quoted text[/quote]`" },
   { label := "List", icon := "fas fa-list", category := some .special
     shortcut := none
     tag := "list".toList, placeholder := "[*]item 1\n[*]item 2\n[*]item 3".toList
     hasClosingTag := true, sortOrder := 4
     documentation :=
      "**List** - creates a list\n\nUse `[*]` for each item\n\n- `[list]` - unordered list (bullets)\n- `[list=TYPE]` - ordered list (numbers)"
     detail := "BBCode list tag"
     hoverInfo :=
      "**List tag** - creates a list\n\nUnordered: `[list][*]item 1[*]item 2[/list]`\n\nOrdered (TYPE can be anything): `[list=TYPE][*]item 1[*]item 2[/list]`" },
   { label := "Spoiler", icon := "fas fa-eye-slash", category := some .special
     shortcut := none
     tag := "spoiler".toList, placeholder := "hidden text".toList
     hasClosingTag := true, sortOrder := 4
     documentation :=
      "**Spoiler** - text that is revealed on click\n\nCommonly used for spoiler warnings"
     detail := "BBCode spoiler tag"
     hoverInfo :=
      "**Spoiler tag** - hides sensitive text\n\nUsage: `[spoiler]hidden text[/spoiler]`" },
   { label := "Heading", icon := "fas fa-heading", category := some .osu
     shortcut := none
     tag := "heading".toList, placeholder := "heading text".toList
     hasClosingTag := true, sortOrder := 6
     documentation :=
      "**Heading** - osu! forum heading style\n\nCreates a prominent section heading"
     detail := "osu! heading tag"
     hoverInfo :=
      "**Heading tag** - osu! forum heading style\n\nUsage: `[heading]title[/heading]`" },
   { label := "Notice", icon := "fas fa-exclamation-triangle", category := some .osu
     shortcut := none
     tag := "notice".toList, placeholder := "notice text".toList
     hasClosingTag := true, sortOrder := 6
     documentation := "**Notice** - osu! forum notice box\n\nShows an important note or warning"
     detail := "osu! notice tag"
     hoverInfo := "**Notice tag** - osu! forum notice box\n\nUsage: `[notice]text[/notice]`" },
   { label := "Box", icon := "fas fa-box", category := some .osu
     shortcut := none
     tag := "box=Click to expand".toList, placeholder := "collapsed content".toList
     hasClosingTag := true, sortOrder := 6
     documentation :=
      "**Box** - osu! forum collapsible box\n\nCreates a region that can be expanded and collapsed\n\nExample: `[box=Click to expand]content[/box]`"
     detail := "osu! box tag"
     hoverInfo := "**Box tag** - osu! forum collapsible box\n\nUsage: `[box=title]content[/box]`" },
   { label := "User", icon := "fas fa-user", category := some .osu
     shortcut := none
     tag := "profile=123456".toList, placeholder := "username".toList
     hasClosingTag := true, sortOrder := 6
     documentation :=
      "**User link** - link to an osu! user profile\n\nExample: `[profile=2]peppy[/profile]`"
     detail := "osu! profile tag"
     hoverInfo :=
      "**Profile tag** - link to an osu! user profile\n\nUsage: `[profile=user id]username[/profile]`" },
   { label := "Spoiler box", icon := "fas fa-search", category := some .special
     shortcut := none
     tag := "spoilerbox".toList, placeholder := "spoiler content".toList
     hasClosingTag := true, sortOrder := 6
     documentation :=
      "**Spoiler box** - osu! forum spoiler box\n\nA collapsible box whose title is always SPOILER\n\nExample: `[spoilerbox]content[/spoilerbox]`"
     detail := "osu! spoiler box tag"
     hoverInfo :=
      "**Spoiler box tag** - osu! forum spoiler box\n\nUsage: `[spoilerbox]content[/spoilerbox]`\n\nThe title is always SPOILER" },
   { label := "Email", icon := "fas fa-envelope", category := some .media
     shortcut := none
     tag := "email=test@example.com".toList, placeholder := "name".toList
     hasClosingTag := true, sortOrder := 6
     documentation :=
      "**Email** - mailto link\n\nExample: `[email=test@example.com]your name[/email]`"
     detail := "osu! email tag"
     hoverInfo := "**Email tag** - mailto link\n\nUsage: `[email=address]text[/email]`" },
   { label := "YouTube", icon := "fab fa-youtube", category := some .media
     shortcut := none
     tag := "youtube".toList, placeholder := "".toList
     hasClosingTag := true, sortOrder := 6
     documentation :=
      "**YouTube** - embeds a YouTube video\n\nExample: `[youtube]Ef6zwIR44Ww[/youtube]`"
     detail := "osu! YouTube tag"
     hoverInfo :=
      "**YouTube tag** - embeds a YouTube video\n\nUsage: `[youtube]video id[/youtube]`" },
   { label := "Audio", icon := "fas fa-music", category := some .media
     shortcut := none
     tag := "audio".toList, placeholder := "".toList
     hasClosingTag := true, sortOrder := 6
     documentation :=
      "**Audio** - embeds a playable audio file\n\nExample: `[audio]https://example.com/audiofile[/audio]`"
     detail := "osu! audio tag"
     hoverInfo :=
      "**Audio tag** - embeds audio\n\nUsage: `[audio]audio URL (must be reachable from osu!)[/audio]`" },
   { label := "Imagemap", icon := "fas fa-map-marked-alt", category := some .media
     shortcut := none
     tag := "imagemap".toList, placeholder := "".toList
     hasClosingTag := true, sortOrder := 6
     documentation :=
      "**Imagemap** - image with clickable regions\n\nExample: `[imagemap]https://example.com/example.jpg\n\n45 16 25 7 https://osu.ppy.sh/users/2\n\n70 8 30 7 https://osu.ppy.sh/users/3[/imagemap]`"
     detail := "osu! imagemap tag"
     hoverInfo :=
      "**Imagemap tag** - image with clickable regions\n\nUsage:\n\n[imagemap]\n\nimage URL\n\nX Y WIDTH HEIGHT link\n\n[/imagemap]" }]

/-- The entry of a tag, whatever the case of its ASCII letters. -/
def find? (name : Text) : Option CatalogEntry :=
  entries.find? fun e => e.tagName.sameAscii name

end Catalog

end BBCode
