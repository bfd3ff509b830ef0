set_option autoImplicit false

/-! # Usage

What the program prints about its options: the usage in front of every complaint, and the help.
-/

namespace RowBlock.Options

def programName : String := "matmul_main.py"

def usage : String := String.join [
  "usage: matmul_main.py [-h] [--rows ROWS] [--inner INNER]\n",
  "                      [--dtype \x7bint32,int64\x7d] [--fill \x7bpattern,random\x7d]\n",
  "                      [--seed SEED] [--low LOW] [--high HIGH]\n",
  "                      [--matrix-a MATRIX_A] [--matrix-b MATRIX_B]\n",
  "                      [--kernel \x7bgpu,loop,numpy\x7d]\n",
  "                      [--gather-order \x7brank,arrival\x7d] [--skip-empty]\n",
  "                      [--rounds ROUNDS] [--verify] [--quiet] [--output OUTPUT]\n",
  "                      [--stats STATS] [--plot PLOT]\n",
  "                      [--log-level \x7bDEBUG,INFO,WARNING,ERROR\x7d]\n"]

/-- The help: the usage, what the program does, and every option. -/
def help : String := usage ++ String.join [
  "\n",
  "Row-block distributed matrix multiplication with mpi4py (coordinator +\n",
  "workers)\n",
  "\n",
  "options:\n",
  "  -h, --help            show this help message and exit\n",
  "  --rows ROWS, -n ROWS  N: rows of A, columns of B, order of the result\n",
  "  --inner INNER, -m INNER\n",
  "                        M: columns of A and rows of B\n",
  "  --dtype \x7bint32,int64\x7d\n",
  "                        Fixed-width integer type of the matrices\n",
  "  --fill \x7bpattern,random\x7d\n",
  "                        pattern: A[i][j] = B[i][j] = j+1; random: uniform\n",
  "                        integers\n",
  "  --seed SEED           Seed for --fill random\n",
  "  --low LOW             Smallest value for --fill random\n",
  "  --high HIGH           Largest value for --fill random\n",
  "  --matrix-a MATRIX_A   Headerless CSV to load A from (requires --matrix-b)\n",
  "  --matrix-b MATRIX_B   Headerless CSV to load B from (requires --matrix-a)\n",
  "  --kernel \x7bgpu,loop,numpy\x7d\n",
  "                        Row-block multiply used by the workers\n",
  "  --gather-order \x7brank,arrival\x7d\n",
  "                        Receive replies in rank order or as they arrive\n",
  "  --skip-empty          Do not send B to workers that were assigned zero rows\n",
  "  --rounds ROUNDS       Number of rounds to run back to back\n",
  "  --verify              Check the result against a single-process numpy\n",
  "                        product\n",
  "  --quiet, -q           Only report timings, not the matrices\n",
  "  --output OUTPUT       CSV file to write the result matrix to\n",
  "  --stats STATS         CSV file to write round timing statistics to\n",
  "  --plot PLOT           PNG file for the partition / round time chart\n",
  "  --log-level \x7bDEBUG,INFO,WARNING,ERROR\x7d\n"]

/-- A complaint below the usage. -/
def complaint (text : String) : String := usage ++ programName ++ ": error: " ++ text ++ "\n"

end RowBlock.Options
