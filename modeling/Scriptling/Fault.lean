namespace Scriptling

/-- A place in a program: its line, the byte column in that line, both counted from one, and the
text of the line. -/
structure Place where
  line : Nat
  column : Nat
  text : String
deriving DecidableEq, Repr, Inhabited

/-- The place of what no program text stands for. -/
def Place.nowhere : Place := ⟨0, 0, ""⟩

/-- A fault that concerns a piece of program text is kept with its place. -/
structure Located (α : Type) where
  fault : α
  place : Place
deriving DecidableEq, Repr

inductive LexFault where
  | unexpectedCharacter (text : String)
  | unterminatedString
  | pointAfterExponent
  | invalidNumber (text : String)
deriving DecidableEq, Repr

def LexFault.message : LexFault → String
  | .unexpectedCharacter text => "Unexpected character: " ++ text
  | .unterminatedString => "Unterminated string."
  | .pointAfterExponent => "Unexpected number literal."
  | .invalidNumber text => "Invalid number literal: " ++ text

/-- What a function declaration is part of. -/
inductive Role where
  | function
  | method
  | static
deriving DecidableEq, Repr

def Role.text : Role → String
  | .function => "function"
  | .method => "method"
  | .static => "static method"

inductive Expected where
  | className | superclassName | classBody | classEnd
  | functionName (role : Role) | parameters (role : Role) | parameterName | parametersEnd
  | functionBody (role : Role)
  | variableName | variableEnd
  | forClauses | loopConditionEnd | forClausesEnd
  | ifCondition | ifConditionEnd | whileCondition | whileConditionEnd
  | returnEnd | breakEnd | nextEnd | expressionEnd | blockEnd
  | ternaryColon | propertyName | argumentsEnd | superDot | superMethod | groupEnd | expression
deriving DecidableEq, Repr

def Expected.message : Expected → String
  | .className => "Expected class name."
  | .superclassName => "Expected superclass name."
  | .classBody => "Expected '\x7b' before class body."
  | .classEnd => "Expected '\x7d' after class body."
  | .functionName role => "Expected " ++ role.text ++ " name."
  | .parameters role => "Expected '(' after " ++ role.text ++ " name."
  | .parameterName => "Expected parameter name."
  | .parametersEnd => "Expected ')' after parameters."
  | .functionBody role => "Expected '\x7b' before " ++ role.text ++ " body."
  | .variableName => "Expected variable name."
  | .variableEnd => "Expected ';' after variable declaration."
  | .forClauses => "Expected '(' after 'for'."
  | .loopConditionEnd => "Expected ';' after loop condition."
  | .forClausesEnd => "Expected ')' after for clauses."
  | .ifCondition => "Expected '(' after 'if'."
  | .ifConditionEnd => "Expected ')' after if condition."
  | .whileCondition => "Expected '(' after 'while'."
  | .whileConditionEnd => "Expected ')' after condition."
  | .returnEnd => "Expected ';' after return value."
  | .breakEnd => "Expected ';' after 'break'."
  | .nextEnd => "Expected ';' after 'next'."
  | .expressionEnd => "Expected ';' after expression."
  | .blockEnd => "Expected '\x7d' after block."
  | .ternaryColon => "Expected ':' in ternary expression."
  | .propertyName => "Expected property name after '.'."
  | .argumentsEnd => "Expected ')' after arguments."
  | .superDot => "Expected '.' after 'super'."
  | .superMethod => "Expected superclass method name."
  | .groupEnd => "Expected ')' after expression."
  | .expression => "Expected expression."

/-- The most parameters of a declaration, and the most arguments of a call. -/
def maxItems : Nat := 32

inductive ParseFault where
  | expected (what : Expected)
  | tooManyParameters
  | tooManyArguments
  | assignmentTarget
  | updateTarget (operator : String)
deriving DecidableEq, Repr

def ParseFault.message : ParseFault → String
  | .expected what => what.message
  | .tooManyParameters => "Can't have more than " ++ maxItems.repr ++ " parameters."
  | .tooManyArguments => "Can't have more than " ++ maxItems.repr ++ " arguments."
  | .assignmentTarget => "Invalid assignment target."
  | .updateTarget operator => "Invalid " ++ operator ++ " target."

inductive ScopeFault where
  | redeclared
  | ownInitializer
  | topLevelReturn
  | initializerValue
  | selfInheritance
  | thisOutsideClass
  | superOutsideClass
  | superWithoutSuperclass
deriving DecidableEq, Repr

def ScopeFault.message : ScopeFault → String
  | .redeclared => "Variable with this name already declared in this scope."
  | .ownInitializer => "Cannot read local variable in its own initializer."
  | .topLevelReturn => "Cannot return from top-level code."
  | .initializerValue => "Cannot return a value from an initializer."
  | .selfInheritance => "A class can't inherit from itself."
  | .thisOutsideClass => "Cannot use 'this' outside of a class."
  | .superOutsideClass => "Cannot use 'super' outside of a class."
  | .superWithoutSuperclass => "Cannot use 'super' in a class with no superclass."

inductive RuntimeFault where
  | undefinedVariable (name : String)
  | operandNotNumber
  | operandsNotNumbers
  | operandsUnlike
  | divisionByZero
  | unknownOperator (lexeme : String)
  | updateTarget
  | notCallable
  | argumentCount (least most given : Nat)
  | missingArgument (name : String)
  | noProperties
  | noFields
  | undefinedMethod (name : String)
  | undefinedStatic (name : String)
  | methodOnClass (name : String)
  | staticOnInstance (name : String)
  | superclassNotClass
  | superOutsideClass
  | breakOutsideLoop
  | nextOutsideLoop
  | lineEndingNotString
  | textOfNonNumber
  | promptNotString
  | numberOfNonString
  | notNumeral (text : String)
  | rootOfNegative
  | rootOfNonNumber
  | rangeNotNumbers
  | emptyRange
deriving DecidableEq, Repr

def RuntimeFault.message : RuntimeFault → String
  | .undefinedVariable name => "Undefined variable '" ++ name ++ "'."
  | .operandNotNumber => "Operand must be a number."
  | .operandsNotNumbers => "Operands must be numbers."
  | .operandsUnlike => "Operands must be two numbers or two strings."
  | .divisionByZero => "Division by zero error."
  | .unknownOperator lexeme => "Unknown operator '" ++ lexeme ++ "'."
  | .updateTarget => "Invalid increment target."
  | .notCallable => "Can only call functions and classes."
  | .argumentCount least most given =>
    if least = most then
      "Expected " ++ least.repr ++ " arguments but got " ++ given.repr ++ "."
    else
      "Expected between " ++ least.repr ++ " and " ++ most.repr ++ " arguments but got " ++
        given.repr ++ "."
  | .missingArgument name => "Missing argument for '" ++ name ++ "'."
  | .noProperties => "Only instances have properties."
  | .noFields => "Only instances have fields."
  | .undefinedMethod name => "Undefined method '" ++ name ++ "'."
  | .undefinedStatic name => "Undefined static method '" ++ name ++ "'."
  | .methodOnClass name =>
    "Cannot call non-static method '" ++ name ++
      "' statically. You must create an instance and call it from the instance."
  | .staticOnInstance name =>
    "Cannot call static method '" ++ name ++
      "' non-statically. You must call it from the class itself."
  | .superclassNotClass => "Superclass must be a class."
  | .superOutsideClass => "Cannot use 'super' outside of a class."
  | .breakOutsideLoop => "Cannot use 'break' outside of a loop."
  | .nextOutsideLoop => "Cannot use 'next' outside of a loop."
  | .lineEndingNotString => "The line ending passed to print must be a string."
  | .textOfNonNumber => "The argument passed to toString must be a number."
  | .promptNotString => "The prompt passed to input must be a string."
  | .numberOfNonString => "The argument passed to toNumber must be a string."
  | .notNumeral text => "Cannot convert '" ++ text ++ "' to a number."
  | .rootOfNegative => "Cannot take the square root of a negative number."
  | .rootOfNonNumber => "The argument passed to sqrt must be a number."
  | .rangeNotNumbers => "The arguments passed to randomInt must be numbers."
  | .emptyRange => "The range passed to randomInt is empty."

inductive StreamFault where
  | outputFull
  | flushFailed
  | inputNotText
deriving DecidableEq, Repr

def StreamFault.message : StreamFault → String
  | .outputFull => "output limit reached"
  | .flushFailed => "flush failed"
  | .inputNotText => "stream did not contain valid UTF-8"

end Scriptling
