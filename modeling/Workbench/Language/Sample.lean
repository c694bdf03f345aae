import Workbench.Language.Basic

/-!
# Language/Sample — the document that each language starts with

A language is shown with a sample until the user edits it.  A sample is the list of its lines; the
last line has no line feed.
-/

namespace Workbench.Language

/-- The text with these lines. -/
def ofLines (lines : List String) : Text := Text.joined "\n" (lines.map String.toList)

/-- Fibonacci numbers and primes. -/
def pythonSample : Text :=
  ofLines [
    "# Python Example - Fibonacci & Prime Numbers",
    "def fibonacci(n):",
    "    \"\"\"Generate Fibonacci sequence\"\"\"",
    "    a, b = 0, 1",
    "    result = []",
    "    for i in range(n):",
    "        result.append(a)",
    "        a, b = b, a + b",
    "    return result",
    "",
    "def is_prime(num):",
    "    \"\"\"Check if number is prime\"\"\"",
    "    if num < 2:",
    "        return False",
    "    for i in range(2, int(num ** 0.5) + 1):",
    "        if num % i == 0:",
    "            return False",
    "    return True",
    "",
    "# Main execution",
    "print(\"=== Fibonacci Sequence ===\")",
    "fib = fibonacci(10)",
    "print(f\"First 10 numbers: \x7bfib\x7d\")",
    "",
    "print(\"\\n=== Prime Numbers ===\")",
    "primes = [x for x in range(2, 30) if is_prime(x)]",
    "print(f\"Primes up to 30: \x7bprimes\x7d\")",
    "",
    "print(\"\\n=== Calculations ===\")",
    "numbers = [1, 2, 3, 4, 5]",
    "print(f\"Sum: \x7bsum(numbers)\x7d\")",
    "print(f\"Average: \x7bsum(numbers)/len(numbers)\x7d\")"]

/-- Grades and Fibonacci numbers. -/
def javaSample : Text :=
  ofLines [
    "// Java Example - Student Grade System",
    "public class Main \x7b",
    "    public static void main(String[] args) \x7b",
    "        System.out.println(\"=== Student Grade System ===\");",
    "        System.out.println(\"\");",
    "        ",
    "        int[] scores = \x7b85, 92, 78, 95, 88\x7d;",
    "        ",
    "        double avg = calculateAverage(scores);",
    "        System.out.println(\"Average Score: \" + avg);",
    "        System.out.println(\"Letter Grade: \" + getGrade(avg));",
    "        ",
    "        System.out.println(\"\");",
    "        System.out.println(\"=== Fibonacci Numbers ===\");",
    "        for (int i = 0; i < 10; i++) \x7b",
    "            System.out.println(\"F(\" + i + \") = \" + fibonacci(i));",
    "        \x7d",
    "    \x7d",
    "    ",
    "    static double calculateAverage(int[] arr) \x7b",
    "        int sum = 0;",
    "        for (int num : arr) \x7b",
    "            sum += num;",
    "        \x7d",
    "        return (double) sum / arr.length;",
    "    \x7d",
    "    ",
    "    static String getGrade(double avg) \x7b",
    "        if (avg >= 90) return \"A\";",
    "        if (avg >= 80) return \"B\";",
    "        if (avg >= 70) return \"C\";",
    "        return \"D\";",
    "    \x7d",
    "    ",
    "    static int fibonacci(int n) \x7b",
    "        if (n <= 1) return n;",
    "        return fibonacci(n - 1) + fibonacci(n - 2);",
    "    \x7d",
    "\x7d"]

/-- A counter and a calculator. -/
def htmlSample : Text :=
  ofLines [
    "<!DOCTYPE html>",
    "<html lang=\"en\">",
    "<head>",
    "    <meta charset=\"UTF-8\">",
    "    <title>Interactive App</title>",
    "    <style>",
    "        body \x7b",
    "            font-family: Arial, sans-serif;",
    "            background: linear-gradient(135deg, #667eea, #764ba2);",
    "            padding: 40px;",
    "            margin: 0;",
    "        \x7d",
    "        .container \x7b",
    "            max-width: 600px;",
    "            margin: 0 auto;",
    "        \x7d",
    "        .card \x7b",
    "            background: white;",
    "            padding: 30px;",
    "            border-radius: 12px;",
    "            box-shadow: 0 10px 40px rgba(0,0,0,0.2);",
    "            margin-bottom: 20px;",
    "        \x7d",
    "        h2 \x7b",
    "            color: #333;",
    "            margin-top: 0;",
    "        \x7d",
    "        button \x7b",
    "            background: #667eea;",
    "            color: white;",
    "            border: none;",
    "            padding: 10px 20px;",
    "            border-radius: 6px;",
    "            cursor: pointer;",
    "            font-size: 16px;",
    "            margin: 5px;",
    "        \x7d",
    "        button:hover \x7b",
    "            background: #5568d3;",
    "        \x7d",
    "        .counter \x7b",
    "            font-size: 48px;",
    "            font-weight: bold;",
    "            color: #667eea;",
    "            text-align: center;",
    "            margin: 20px 0;",
    "        \x7d",
    "        input \x7b",
    "            width: 100%;",
    "            padding: 10px;",
    "            margin: 10px 0;",
    "            border: 2px solid #ddd;",
    "            border-radius: 6px;",
    "            font-size: 16px;",
    "            box-sizing: border-box;",
    "        \x7d",
    "        .result \x7b",
    "            background: #f0f0f0;",
    "            padding: 15px;",
    "            border-radius: 6px;",
    "            margin-top: 15px;",
    "        \x7d",
    "    </style>",
    "</head>",
    "<body>",
    "    <div class=\"container\">",
    "        <div class=\"card\">",
    "            <h2>🔢 Counter</h2>",
    "            <div class=\"counter\" id=\"counter\">0</div>",
    "            <div style=\"text-align: center;\">",
    "                <button onclick=\"increment()\">+ Add</button>",
    "                <button onclick=\"decrement()\">- Subtract</button>",
    "                <button onclick=\"reset()\">Reset</button>",
    "            </div>",
    "        </div>",
    "        ",
    "        <div class=\"card\">",
    "            <h2>🧮 Calculator</h2>",
    "            <input type=\"number\" id=\"num1\" placeholder=\"First number\">",
    "            <input type=\"number\" id=\"num2\" placeholder=\"Second number\">",
    "            <button onclick=\"calc('add')\">Add</button>",
    "            <button onclick=\"calc('sub')\">Subtract</button>",
    "            <button onclick=\"calc('mul')\">Multiply</button>",
    "            <button onclick=\"calc('div')\">Divide</button>",
    "            <div class=\"result\" id=\"result\">Enter numbers above</div>",
    "        </div>",
    "    </div>",
    "    ",
    "    <script>",
    "        let count = 0;",
    "        ",
    "        function increment() \x7b",
    "            count++;",
    "            document.getElementById('counter').textContent = count;",
    "        \x7d",
    "        ",
    "        function decrement() \x7b",
    "            count--;",
    "            document.getElementById('counter').textContent = count;",
    "        \x7d",
    "        ",
    "        function reset() \x7b",
    "            count = 0;",
    "            document.getElementById('counter').textContent = count;",
    "        \x7d",
    "        ",
    "        function calc(op) \x7b",
    "            const a = parseFloat(document.getElementById('num1').value);",
    "            const b = parseFloat(document.getElementById('num2').value);",
    "            let result;",
    "            ",
    "            if (isNaN(a) || isNaN(b)) \x7b",
    "                document.getElementById('result').textContent = 'Enter valid numbers!';",
    "                return;",
    "            \x7d",
    "            ",
    "            switch(op) \x7b",
    "                case 'add': result = a + b; break;",
    "                case 'sub': result = a - b; break;",
    "                case 'mul': result = a * b; break;",
    "                case 'div': result = b !== 0 ? a / b : 'Cannot divide by 0'; break;",
    "            \x7d",
    "            ",
    "            document.getElementById('result').textContent = 'Result: ' + result;",
    "        \x7d",
    "    </script>",
    "</body>",
    "</html>"]

/-- The sample of a language. -/
def sample : Language → Text
  | python => pythonSample
  | java => javaSample
  | html => htmlSample

end Workbench.Language
