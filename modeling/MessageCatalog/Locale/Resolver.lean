/-
Resolving locales to plural rules.

* `Declaration`: the locales that a caller declares, possibly with rules of its own;
* `Resolver.make`: checks a declaration and settles the default locale;
* `Resolver.resolve`: the rule of a locale or of its nearest ancestor that has one;
* `Resolver.select`: the locale that a request is served under.
-/
import MessageCatalog.Locale.Id
import MessageCatalog.Plural.Rule

namespace MessageCatalog.Locale

open Plural (Rule Provider)

/-- The locales that a caller declares. -/
inductive Declaration where
  /-- None: every locale is resolved when it is asked for. -/
  | undeclared
  /-- One locale only. -/
  | single (locale : String)
  /-- Several locales; the first is the default one. -/
  | several (locales : List String)
  /-- Rules of the caller's own, which are used instead of any other. -/
  | custom (rules : Entries Rule)

/-- The declaration that a list of names stands for. -/
def Declaration.ofList : List String → Declaration
  | [] => .undeclared
  | [locale] => .single locale
  | locales => .several locales

/-- Why no rule can be found, or a declaration cannot be used. -/
inductive Error where
  | notFound (locale : String)
  | emptyMapping
  | badName (name : String) (fault : Fault)
deriving DecidableEq

/-- The wording of an error. -/
def Error.message : Error → String
  | .notFound locale => "locale not found: " ++ locale
  | .emptyMapping => "invalid locale mapping: custom locale mapping is empty"
  | .badName name fault => "invalid locale mapping: " ++ name ++ ": " ++ fault.message

/-- Declared locales, a default locale, and the rules to resolve them with. -/
structure Resolver where
  provider : Provider
  declared : List String
  default : String

namespace Resolver

/-- The rule of a locale: the one that the provider has for the longest name among the locale and
its ancestors. Unless the rule's categories are wanted they are left out. -/
def resolve (resolver : Resolver) (locale : String) (categories : Bool) : Except Error Rule :=
  match Id.parse locale with
  | .error _ => .error (.notFound locale)
  | .ok id =>
    match (id.lineage.map Id.text).findSome? resolver.provider with
    | some rule => .ok (if categories then rule else rule.undeclared)
    | none => .error (.notFound locale)

/-- Whether a locale is literally one of the declared ones. -/
def isDeclared (resolver : Resolver) (locale : String) : Bool :=
  resolver.declared.contains locale

/-- The locale that a request is served under: the default one if none is asked for, and otherwise
the one asked for, which has to be declared if any is. -/
def select (resolver : Resolver) : Option String → Except Error String
  | none => .ok resolver.default
  | some locale =>
    if resolver.declared.isEmpty || resolver.isDeclared locale then .ok locale
    else .error (.notFound locale)

/-- The first name of a mapping that is no locale identifier. -/
def firstBadName? : List String → Option Error
  | [] => none
  | name :: rest =>
    match Id.parse name with
    | .error fault => some (.badName name fault)
    | .ok _ => firstBadName? rest

/-- The provider and the declared locales of a declaration. -/
def ofDeclaration (provider : Provider) : Declaration → Except Error (Provider × List String)
  | .undeclared => .ok (provider, [])
  | .single locale => .ok (provider, [locale])
  | .several locales => .ok (provider, locales)
  | .custom rules =>
    if rules.isEmpty then .error .emptyMapping
    else
      match firstBadName? (Entries.keys rules) with
      | some error => .error error
      | none => .ok (.ofEntries rules, Entries.keys rules)

/-- The default locale: the wanted one if it is declared or nothing is, else the first declared
one. -/
def defaultOf (declared : List String) (wanted : String) : String :=
  match declared with
  | [] => wanted
  | first :: _ => if declared.contains wanted then wanted else first

/-- A resolver for a declaration. Every declared locale has to resolve. -/
def make (provider : Provider) (declaration : Declaration) (wanted : String) :
    Except Error Resolver := do
  let (provider, declared) ← ofDeclaration provider declaration
  let resolver : Resolver := ⟨provider, declared, defaultOf declared wanted⟩
  for locale in declared do
    let _ ← resolver.resolve locale false
  return resolver

end Resolver

end MessageCatalog.Locale
