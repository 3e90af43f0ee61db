/-!
Content kinds: what a template, a block or a parameter declares, and what rendered content
carries. The declared kinds are finer by one: a single element is plain `html` once rendered.
-/
namespace ResumableTemplates

inductive ContentKind
  | html | attributes | js | css | uri | trustedResourceUri | text
deriving DecidableEq, Inhabited

inductive DeclaredKind
  | html | htmlElement | attributes | js | css | uri | trustedResourceUri | text
deriving DecidableEq, Inhabited

namespace ContentKind

def name : ContentKind → String
  | html => "html"
  | attributes => "attributes"
  | js => "js"
  | css => "css"
  | uri => "uri"
  | trustedResourceUri => "trusted_resource_uri"
  | text => "text"

def all : List ContentKind := [html, attributes, js, css, uri, trustedResourceUri, text]

def ofName? (s : String) : Option ContentKind := all.find? (·.name == s)

end ContentKind

namespace DeclaredKind

def name : DeclaredKind → String
  | html => "html"
  | htmlElement => "html_element"
  | attributes => "attributes"
  | js => "js"
  | css => "css"
  | uri => "uri"
  | trustedResourceUri => "trusted_resource_uri"
  | text => "text"

def all : List DeclaredKind :=
  [html, htmlElement, attributes, js, css, uri, trustedResourceUri, text]

def ofName? (s : String) : Option DeclaredKind := all.find? (·.name == s)

def rendered : DeclaredKind → ContentKind
  | html | htmlElement => .html
  | attributes => .attributes
  | js => .js
  | css => .css
  | uri => .uri
  | trustedResourceUri => .trustedResourceUri
  | text => .text

end DeclaredKind

end ResumableTemplates
