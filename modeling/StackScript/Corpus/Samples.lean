/-!
# Sample scripts

Small scripts, each for one feature of the language, and three larger ones: one
that uses every feature, one that stack code exists for, and one that a document
exists for.
-/

namespace StackScript.Corpus

/-- A text of lines, each but the last of which ends in a newline. -/
def ofLines (lines : List String) : String :=
  String.intercalate "\n" lines

/-- A text is printed. -/
def hello : String := ofLines
  ["print('Hello, world')",
   ""]

/-- A number is printed. -/
def ultimateAnswer : String := ofLines
  ["print(42)",
   ""]

def severalStatements : String := ofLines
  ["print('Hello, world\\n')",
   "print('Goodnight, moon\\n')",
   "print('Goodbye, cruel world')",
   ""]

/-- Each arithmetic operator is used once. -/
def arithmetic : String := ofLines
  ["print(1 + 2)",
   "print('\\n')",
   "print(6 - 2)",
   "print('\\n')",
   "print(2 * 3)",
   "print('\\n')",
   "print(17 // 2)",
   "print('\\n')",
   "print(17 % 2)",
   ""]

/-- Multiplication binds tighter than addition. -/
def orderOfOperations : String := ofLines
  ["print(1 + 2 * 3)",
   "print('\\n')",
   "print(4 + 2 // 3)",
   "print('\\n')",
   "print(1 + 2 % 3)",
   "print('\\n')",
   "print(1 - 2 * 3)",
   "print('\\n')",
   "print(4 - 2 // 3)",
   "print('\\n')",
   "print(5 - 2 % 3)",
   ""]

/-- Operators of one level associate to the left. -/
def leftAssociation : String := ofLines
  ["print(2 + 2 + 2 + 2)",
   "print('\\n')",
   "print(5 - 1 - 1 - 1)",
   "print('\\n')",
   "print(2 * 2 * 2 * 2)",
   "print('\\n')",
   "print(12 // 2 // 3 // 2)",
   "print('\\n')",
   "print(13 % 5 % 2)",
   ""]

def power : String := ofLines
  ["print(pow(3, 4))",
   ""]

def negative : String := ofLines
  ["print(-1)",
   ""]

/-- Names are bound and read. -/
def assigned : String := ofLines
  ["greeting = 'Hello, world'",
   "print(greeting)",
   ""]

def booleans : String := ofLines
  ["print(true)",
   "print('\\n')",
   "print(false)",
   ""]

/-- Parentheses change the order of operations. -/
def grouping : String := ofLines
  ["print((1 + 1) * 2)",
   ""]

def integerComparison : String := ofLines
  ["print('13 < 17: ')",
   "print(13 < 17)",
   "print('\\n')",
   "print('17 < 17: ')",
   "print(17 < 17)",
   "print('\\n')",
   "print('19 < 17: ')",
   "print(19 < 17)",
   "print('\\n')",
   "print('13 > 17: ')",
   "print(13 > 17)",
   "print('\\n')",
   "print('17 > 17: ')",
   "print(17 > 17)",
   "print('\\n')",
   "print('19 > 17: ')",
   "print(19 > 17)",
   "print('\\n')",
   "print('13 == 17: ')",
   "print(13 == 17)",
   "print('\\n')",
   "print('17 == 17: ')",
   "print(17 == 17)",
   "print('\\n')",
   "print('19 == 17: ')",
   "print(19 == 17)",
   "print('\\n')",
   "print('13 <= 17: ')",
   "print(13 <= 17)",
   "print('\\n')",
   "print('17 <= 17: ')",
   "print(17 <= 17)",
   "print('\\n')",
   "print('19 <= 17: ')",
   "print(19 <= 17)",
   "print('\\n')",
   "print('13 >= 17: ')",
   "print(13 >= 17)",
   "print('\\n')",
   "print('17 >= 17: ')",
   "print(17 >= 17)",
   "print('\\n')",
   "print('19 >= 17: ')",
   "print(19 >= 17)",
   "print('\\n')",
   "print('13 != 17: ')",
   "print(13 != 17)",
   "print('\\n')",
   "print('17 != 17: ')",
   "print(17 != 17)",
   "print('\\n')",
   "print('19 != 17: ')",
   "print(19 != 17)",
   ""]

def booleanOperators : String := ofLines
  ["print('false and false: ')",
   "print(false and false)",
   "print('\\n')",
   "print('false and true: ')",
   "print(false and true)",
   "print('\\n')",
   "print('true and false: ')",
   "print(true and false)",
   "print('\\n')",
   "print('true and true: ')",
   "print(true and true)",
   "print('\\n')",
   "print('false or false: ')",
   "print(false or false)",
   "print('\\n')",
   "print('false or true: ')",
   "print(false or true)",
   "print('\\n')",
   "print('true or false: ')",
   "print(true or false)",
   "print('\\n')",
   "print('true or true: ')",
   "print(true or true)",
   ""]

def severalArguments : String := ofLines
  ["print('Hello, world\\n')",
   "print(42, '\\n')",
   ""]

def functions : String := ofLines
  ["def get_answer() do",
   "  42",
   "end",
   "",
   "print(get_answer())",
   ""]

/-- The right operand is evaluated only if it matters. -/
def shortCircuit : String := ofLines
  ["def return_true() do",
   "  print('This should print exactly once.\\n')",
   "  true",
   "end",
   "",
   "def return_false() do",
   "  print('This should also print exactly once.\\n')",
   "  false",
   "end",
   "",
   "return_true() or return_true()",
   "return_false() and return_false()",
   ""]

def comments : String := ofLines
  ["# Furface is a great cat",
   "print('Hello, world\\n')",
   ""]

/-- A function sees the names around it. -/
def closures : String := ofLines
  ["def outer() do",
   "  hi = 'Hello, world\\n'",
   "",
   "  def inner() do",
   "    hi",
   "  end",
   "",
   "  inner",
   "end",
   "",
   "get_greeting = outer()",
   "",
   "print(get_greeting())",
   "    ",
   "",
   ""]

/-- Environments refer to each other in a cycle. -/
def cycles : String := ofLines
  ["# Environment A is created here",
   "",
   "# outer references environment A",
   "def outer() do",
   "  # Environment B is created here referencing A",
   "",
   "  # middle references environment B",
   "  def middle() do",
   "    # Environment C is created here referencing B",
   "",
   "    # inner references environment C",
   "    def inner() do",
   "      # This is never executed",
   "      42",
   "    end",
   "",
   "    inner",
   "    # At this point, environment C falls out of scope",
   "    # However, environment C is still referenced by inner, which is being returned",
   "  end",
   "",
   "  variable = middle()",
   "  # Now environment B -> variable -> inner -> C -> B",
   "",
   "  42",
   "  # Nothing from the cycle is returned and B falls out of scope",
   "  # All references are lost, but reference counts are still > 0 because of the cycle",
   "end",
   "",
   "print(outer())",
   ""]

def parameters : String := ofLines
  ["def increment(n) do",
   "  n + 1",
   "end",
   "",
   "def add(a, b) do",
   "  a + b",
   "end",
   "",
   "print(increment(41), '\\n')",
   "print(add(40, 2), '\\n')",
   ""]

/-- A function sees the parameters around it. -/
def closingOverParameters : String := ofLines
  ["def make_incrementer(increment_amount) do",
   "  def result(i) do",
   "    increment_amount + i",
   "  end",
   "",
   "  result",
   "end",
   "",
   "increment_by_one = make_incrementer(1)",
   "increment_by_two = make_incrementer(2)",
   "",
   "print(increment_by_one(41), '\\n')",
   "print(increment_by_two(40), '\\n')",
   ""]

/-- A call may have a function in parentheses. -/
def groupedFunctions : String := ofLines
  ["def make_incrementer(increment_amount) do",
   "  def result(i) do",
   "    increment_amount + i",
   "  end",
   "",
   "  result",
   "end",
   "",
   "print((make_incrementer(1))(41), '\\n')",
   "print((make_incrementer(2))(40), '\\n')",
   ""]

def callingResults : String := ofLines
  ["def make_incrementer(increment_amount) do",
   "  def result(i) do",
   "    increment_amount + i",
   "  end",
   "",
   "  result",
   "end",
   "",
   "print(make_incrementer(1)(41), '\\n')",
   "print(make_incrementer(2)(40), '\\n')",
   ""]

def conditionals : String := ofLines
  ["first_greeting = if true do",
   "  'Hello, world'",
   "else",
   "  'Goodnight, moon'",
   "end",
   "",
   "second_greeting = if false do",
   "  'Hello, world'",
   "else",
   "  'Goodnight, moon'",
   "end",
   "",
   "print(first_greeting, '\\n')",
   "print(second_greeting, '\\n')",
   ""]

def lists : String := ofLines
  ["greetings = [",
   "  'Hello, world',",
   "  'Goodnight, moon',",
   "]",
   "",
   "print(greetings[0], '\\n')",
   "print(greetings[1], '\\n')",
   ""]

def concatenation : String := ofLines
  ["print('Hello' ++ ', ' ++ 'world' ++ '\\n')",
   ""]

def doubleQuotes : String := ofLines
  ["print(\"Don't stop me now\\n\")",
   "print('\"Cogito ergo sum.\" --Descartes\\n')",
   ""]

def records : String := ofLines
  ["expressions = (",
   "  greeting: 'Hello',",
   "  farewell: 'Goodbye',",
   ")",
   "",
   "print(expressions.greeting, '\\n')",
   "print(expressions.farewell, '\\n')",
   ""]

def divisionByZero : String := ofLines
  ["def get_divided_answer() do",
   "  42 // 0",
   "end",
   "",
   "print(get_divided_answer())",
   ""]

/-- Functions without a name. -/
def anonymous : String := ofLines
  ["def incrementer(n) do",
   "  lambda(m) do",
   "    m + n",
   "  end",
   "end",
   "",
   "print(incrementer(1)(42), '\\n')",
   "print(incrementer(2)(42), '\\n')",
   ""]

/-- Functions of one name in different places. -/
def sameNameNested : String := ofLines
  ["def get_incrementer(n) do",
   "  def foo(m) do",
   "    m + n",
   "  end",
   "",
   "  foo",
   "end",
   "",
   "def get_multiplier(n) do",
   "  def foo(m) do",
   "    m * n",
   "  end",
   "",
   "  foo",
   "end",
   "",
   "print(get_incrementer(2)(3), '\\n')",
   "print(get_multiplier(2)(3), '\\n')",
   ""]

def everyFeature : String := ofLines
  ["# A sample script",
   "greeting = 'Hello'",
   "shout = \"World\"",
   "numbers = [1, 2, 3, -4, (5 + 6) * 2]",
   "pair = (",
   "  x: 1 + 2,",
   "  y: numbers[0],",
   ")",
   "msg = greeting ++ shout",
   "def make_adder(a, b) do",
   "  total = a + b - 1 * 2 // 3 % 4",
   "  inner = lambda(c) do",
   "    if c < total do",
   "      c",
   "    else",
   "      total",
   "    end",
   "  end",
   "  inner",
   "end",
   "adder = make_adder(10, 20)",
   "value = adder(3)",
   "flag = (1 < 2) and (3 >= 3) or (4 != 5)",
   "cmp = (1 <= 1) and (2 > 1) and (2 == 2)",
   "picked = if flag do",
   "  pair.x",
   "else",
   "  pair.y",
   "end",
   "print(msg, value, picked, -7, pow(2, 8))",
   "print(make_adder(1, 2)(3))",
   "print((numbers)[1][0])",
   ""]

/-- The features that stack code exists for. -/
def everyEmitted : String := ofLines
  ["# A sample script",
   "greeting = 'Hello'",
   "shout = \"World\"",
   "numbers = [1, 2, 3, -4, (5 + 6) * 2]",
   "pair = (",
   "  x: 1 + 2,",
   "  y: 3 - 4,",
   ")",
   "def make_adder(a, b) do",
   "  total = a + b - 1 * 2 // 3 % 4",
   "  inner = lambda(c) do",
   "    if c < total do",
   "      c",
   "    else",
   "      total",
   "    end",
   "  end",
   "  inner",
   "end",
   "adder = make_adder(10, 20)",
   "value = adder(3)",
   "flag = (1 < 2) and (3 >= 3) or (4 != 5)",
   "cmp = (1 <= 1) and (2 > 1) and (2 == 2)",
   "picked = if flag do",
   "  pair.x",
   "else",
   "  pair.y",
   "end",
   "print(greeting, value, picked, -7, pow(2, 8))",
   "print(make_adder(1, 2)(3))",
   "shout",
   "greeting",
   ""]

/-- The features that a document exists for. -/
def everyWritten : String := ofLines
  ["# A sample script",
   "greeting = 'Hello'",
   "def compute(a, b) do",
   "  total = a + b - 1 * 2 // 3 % 4",
   "  if total < 100 do",
   "    total",
   "  else",
   "    -total",
   "  end",
   "end",
   "x = compute(10, 20)",
   "y = compute(5, 6)",
   "flag = (1 < 2) and (3 >= 3) or (4 != 5)",
   "cmp = (1 <= 1) and (2 > 1) and (2 == 2)",
   "print(greeting, x, y, pow(2, 8))",
   ""]

/-- The small scripts, in order. -/
def samples : List String :=
  [hello, ultimateAnswer, severalStatements, arithmetic, orderOfOperations,
    leftAssociation, power, negative, assigned, booleans, grouping,
    integerComparison, booleanOperators, severalArguments, functions, shortCircuit,
    comments, closures, cycles, parameters, closingOverParameters, groupedFunctions,
    callingResults, conditionals, lists, concatenation, doubleQuotes, records,
    divisionByZero, anonymous, sameNameNested]

end StackScript.Corpus
